import CAudit.Proofs.Progress

/-! Levels that are left over do not matter. A rule calls itself only behind a token that it has
taken, so with more levels than tokens the levels never run out: what ends the recursion is the
number of tokens left, and the limit on nesting only cuts it short. -/
namespace CAudit.Parse

variable {α β : Type} {k : Nat}

/-- Two rules that do the same wherever at most `k` tokens are left. -/
def SameUpTo (k : Nat) (p q : Parse α) : Prop := ∀ ts, ts.length ≤ k → p ts = q ts

theorem SameUpTo.refl (p : Parse α) : SameUpTo k p p := fun _ _ => rfl

theorem SameUpTo.bind {p q : Parse α} {f g : α → Parse β} (hp : SameUpTo k p q) (hc : Composed p)
    (hf : ∀ a, SameUpTo k (f a) (g a)) : SameUpTo k (p >>= f) (q >>= g) := by
  intro ts hts
  have hrest : (p ts).rest.length ≤ k := Nat.le_trans (hc.shrinks ts).length_le hts
  rw [bind_apply, bind_apply, ← hp ts hts, hf _ _ hrest]

theorem same_map {p q : Parse α} (hp : SameUpTo k p q) (hc : Composed p) (h : α → β) :
    SameUpTo k (do return h (← p)) (do return h (← q)) :=
  hp.bind hc fun _ => .refl _

theorem same_cases {p q : Parse (Option α)} {f g : Option α → Parse β} (hp : SameUpTo k p q)
    (hc : Composed p) (hsome : ∀ a, SameUpTo k (f (some a)) (g (some a)))
    (hnone : SameUpTo k (f none) (g none)) : SameUpTo k (p >>= f) (q >>= g) := by
  refine hp.bind hc fun o => ?_
  cases o with
  | none => exact hnone
  | some a => exact hsome a

theorem bind_eq {p q : Parse α} {f : α → Parse β} {ts : List Token} (h : p ts = q ts) :
    (p >>= f) ts = (q >>= f) ts := by
  rw [bind_apply, bind_apply, h]

theorem ite_eq {c : Prop} [Decidable c] {p p' q q' : Parse α} {ts : List Token}
    (hp : c → p ts = p' ts) (hq : ¬ c → q ts = q' ts) :
    (if c then p else q) ts = (if c then p' else q') ts := by
  split
  · next h => exact hp h
  · next h => exact hq h

theorem same_ite {c : Prop} [Decidable c] {p p' q q' : Parse α} (hp : SameUpTo k p p')
    (hq : SameUpTo k q q') : SameUpTo k (if c then p else q) (if c then p' else q') :=
  fun ts hts => ite_eq (fun _ => hp ts hts) fun _ => hq ts hts

/-- Behind a token that was taken, one token less is left. -/
theorem same_next {f g : Option Token → Parse β}
    (hsome : ∀ t, SameUpTo k (f (some t)) (g (some t))) (hnone : f none [] = g none []) :
    SameUpTo (k + 1) (next >>= f) (next >>= g) := by
  intro ts hts
  cases ts with
  | nil => exact congrArg (andThen _) hnone
  | cons t ts => exact congrArg (andThen _) (hsome t ts (Nat.le_of_succ_le_succ hts))

theorem accept_eq {test : Token → Bool} {f g : Option Token → Parse β} {t : Token}
    (ht : test t = true) (h : SameUpTo k (f (some t)) (g (some t))) {ts : List Token}
    (hts : ts.length ≤ k) : (accept test >>= f) (t :: ts) = (accept test >>= g) (t :: ts) := by
  have haccept : accept test (t :: ts) = ⟨some t, ts, [], []⟩ := by simp [accept, ht]
  rw [bind_apply, bind_apply, haccept, h ts hts]

theorem same_loop {p q : Parse (Turn α)} (hp : SameUpTo k p q) :
    SameUpTo k (loop p) (loop q) := by
  intro ts hts
  induction hlen : ts.length using Nat.strongRecOn generalizing ts with
  | _ n ih =>
    have heq := hp ts hts
    rw [loop.eq_def p, loop.eq_def q, ← heq]
    cases hv : (p ts).value with
    | stop => simp only [hv]
    | abandon => simp only [hv]
    | more a =>
      by_cases hlt : (p ts).rest.length < ts.length
      · have hrest : (p ts).rest.length ≤ k := Nat.le_trans (Nat.le_of_lt hlt) hts
        simp only [hv, hlt, if_true, ih _ (hlen ▸ hlt) _ hrest rfl]
      · simp only [hv, hlt, if_false]

theorem same_many {p q : Parse (Option α)} (hp : SameUpTo k p q) :
    SameUpTo k (many p) (many q) := by
  have hturn : SameUpTo k (turn p) (turn q) := by
    intro ts hts
    rw [turn_apply, turn_apply, hp ts hts]
  intro ts hts
  rw [many_apply, many_apply, same_loop hturn ts hts]

theorem same_advancing {p q : Parse α} (hp : SameUpTo k p q) :
    SameUpTo k (advancing p) (advancing q) := by
  intro ts hts
  unfold advancing
  rw [hp ts hts]

theorem same_groupItem {g h : Parse (List SyntaxTree)} (hg : SameUpTo k g h) (hc : Composed g)
    (closer : String) : SameUpTo k (groupItem g closer) (groupItem h closer) := by
  refine same_cases (.refl _) .peek (fun t => ?_) (.refl _)
  exact same_ite (.refl _) (same_ite (same_map hg hc _) (.refl _))

theorem group_nil (room : Nat) : group room [] = ⟨[], [], [], []⟩ := by
  cases room <;> rfl

/-- With as many levels as tokens there are always levels left for a group. -/
theorem same_group {n m : Nat} (hn : k ≤ n) (hm : k ≤ m) : SameUpTo k (group n) (group m) := by
  induction k generalizing n m with
  | zero =>
    intro ts hts
    rw [List.eq_nil_of_length_eq_zero (Nat.le_zero.1 hts), group_nil, group_nil]
  | succ k ih =>
    obtain ⟨n, rfl⟩ := Nat.exists_eq_add_one_of_ne_zero (Nat.ne_zero_of_lt hn)
    obtain ⟨m, rfl⟩ := Nat.exists_eq_add_one_of_ne_zero (Nat.ne_zero_of_lt hm)
    have hinner := ih (Nat.le_of_succ_le_succ hn) (Nat.le_of_succ_le_succ hm)
    refine same_next (fun opener => ?_) rfl
    refine (same_many (same_groupItem hinner (composed_group n) _)).bind
      (.many (composed_groupItem (composed_group n) _)) fun inner => ?_
    exact .refl _

section

variable {n m : Nat} (hg : SameUpTo k (group n) (group m))

include hg

theorem same_expressionItem : SameUpTo k (expressionItem n) (expressionItem m) := by
  refine same_cases (.refl _) .peek (fun t => ?_) (.refl _)
  exact same_ite (same_map hg (composed_group n) _) (.refl _)

theorem same_expressionItems : SameUpTo k (expressionItems n) (expressionItems m) :=
  same_map (same_many (same_expressionItem hg)) (.many (composed_expressionItem n)) _

theorem same_expression (c : Construct) : SameUpTo k (expression n c) (expression m c) :=
  same_map (same_expressionItems hg) (composed_expressionItems n) _

theorem same_arraySize : SameUpTo k (arraySize n) (arraySize m) := by
  refine same_cases (.refl _) (.accept _) (fun opener => ?_) (.refl _)
  exact (same_expression hg _).bind (composed_expression n _) fun _ => .refl _

theorem same_initializer : SameUpTo k (initializer n) (initializer m) := by
  refine same_cases (.refl _) (.accept _) (fun assign => ?_) (.refl _)
  refine (SameUpTo.refl _).bind .peek fun o => same_ite (.refl _) ?_
  exact same_map (same_expression hg _) (composed_expression n _) _

theorem same_declarator : SameUpTo k (declarator n) (declarator m) := by
  refine (SameUpTo.refl _).bind (.spanWhile _) fun pointer => ?_
  refine same_cases (.refl _) (.expect _ _) (fun name => ?_) (.refl _)
  refine same_cases (same_loop (same_arraySize hg)) (.loop (composed_arraySize n))
    (fun sizes => ?_) (.refl _)
  exact same_map (same_initializer hg) (composed_initializer n) _

theorem same_nextDeclarator : SameUpTo k (nextDeclarator n) (nextDeclarator m) := by
  refine same_cases (.refl _) (.accept _) (fun comma => ?_) (.refl _)
  exact (same_declarator hg).bind (composed_declarator n) fun _ => .refl _

theorem same_declaration : SameUpTo k (declaration n) (declaration m) := by
  refine (SameUpTo.refl _).bind composed_typeSpec fun type => ?_
  refine same_cases (same_declarator hg) (composed_declarator n) (fun first => ?_) (.refl _)
  exact (same_loop (same_nextDeclarator hg)).bind (.loop (composed_nextDeclarator n)) fun _ =>
    .refl _

theorem same_returnStatement : SameUpTo k (returnStatement n) (returnStatement m) := by
  refine same_cases (.refl _) .next (fun keyword => ?_) (.refl _)
  exact (same_expressionItems hg).bind (composed_expressionItems n) fun _ => .refl _

theorem same_nextExpression : SameUpTo k (nextExpression n) (nextExpression m) := by
  refine same_cases (.refl _) (.accept _) (fun comma => ?_) (.refl _)
  exact same_map (same_expression hg _) (composed_expression n _) _

theorem same_expressionStatement :
    SameUpTo k (expressionStatement n) (expressionStatement m) := by
  refine (SameUpTo.refl _).bind .here fun line => ?_
  refine (same_expression hg _).bind (composed_expression n _) fun first => ?_
  exact (same_many (same_nextExpression hg)).bind (.many (composed_nextExpression n)) fun _ =>
    .refl _

end

theorem same_statements {p q : Parse (Option SyntaxTree)} (hp : SameUpTo k p q)
    (hc : Composed p) : SameUpTo k (statements p) (statements q) := by
  refine same_map (same_many ?_) (.many (composed_statementItem hc)) _
  refine same_cases (.refl _) .peek (fun t => ?_) (.refl _)
  exact same_ite (.refl _) (same_map (same_advancing hp) (.advancing hc) _)

/-- Inside a block one token less is left than at its brace. -/
theorem block_eq {p q : Parse (Option SyntaxTree)} (hp : SameUpTo k p q) (hc : Composed p)
    {t : Token} (ht : t.isSeparator "\x7b" = true) {ts : List Token} (hts : ts.length ≤ k) :
    block p (t :: ts) = block q (t :: ts) := by
  refine congrArg (andThen _) (accept_eq ht ?_ hts)
  exact (same_statements hp hc).bind (composed_statements hc) fun _ => .refl _

/-- Rules one level further in that do the same wherever at most `k` tokens are left, and on groups
also where there is one more. A block starts at its brace. -/
structure Nested.SameUpTo (i : Nested) (k : Nat) (j : Nested) : Prop where
  statement : Parse.SameUpTo k i.statement j.statement
  block : ∃ p q, i.block = some p ∧ j.block = some q ∧
    ∀ t ts, t.isSeparator "\x7b" = true → (t :: ts).length ≤ k → p (t :: ts) = q (t :: ts)
  group : Parse.SameUpTo (k + 1) (group i.room) (group j.room)

section

variable {i j : Nested} (hij : i.SameUpTo k j) (hi : i.Composite)

include hij

theorem same_body (keyword : String) : SameUpTo k (body i keyword) (body j keyword) := by
  obtain ⟨p, q, hp, hq, heq⟩ := hij.block
  intro ts hts
  cases ts with
  | nil => rfl
  | cons t ts =>
    refine congrArg (andThen _) (ite_eq (fun ht => ?_) fun _ => bind_eq (hij.statement _ hts))
    rw [hp, hq]
    exact bind_eq (heq t ts ht hts)

include hi

theorem same_elseBranch (keyword : Token) :
    SameUpTo k (elseBranch i keyword) (elseBranch j keyword) := by
  refine same_ite (same_cases (.refl _) (.accept _) (fun other => ?_) (.refl _)) (.refl _)
  exact same_map (same_body hij _) (composed_body hi _) _

theorem same_controlStructure :
    SameUpTo (k + 1) (controlStructure i) (controlStructure j) := by
  refine same_next (fun keyword => ?_) rfl
  refine same_cases (.refl _) (.expect _ _) (fun opener => ?_) (.refl _)
  refine (SameUpTo.refl _).bind (composed_condition keyword) fun cond => ?_
  refine (same_body hij _).bind (composed_body hi _) fun main => ?_
  exact same_map (same_elseBranch hij hi keyword) (composed_elseBranch hi keyword) _

theorem same_doWhile : SameUpTo (k + 1) (doWhile i) (doWhile j) := by
  refine same_next (fun keyword => ?_) rfl
  exact (same_body hij _).bind (composed_body hi _) fun _ => .refl _

theorem construct_eq {t : Token} {ts : List Token} (hts : ts.length ≤ k) :
    construct i t (t :: ts) = construct j t (t :: ts) := by
  have hlen : (t :: ts).length ≤ k + 1 := Nat.succ_le_succ hts
  have hother := same_ite (c := t.startsExpression = true) (same_expressionStatement hij.group)
    (.refl (skipUnhandled t)) _ hlen
  refine ite_eq (fun ht => bind_eq (block_eq hij.statement hi.statement ht hts)) fun _ => ?_
  refine ite_eq (fun _ => rfl) fun _ => ite_eq (fun _ => ?_) fun _ => hother
  refine ite_eq (fun _ => same_returnStatement hij.group _ hlen) fun _ => ?_
  refine ite_eq (fun _ => same_doWhile hij hi _ hlen) fun _ => ?_
  refine ite_eq (fun _ => rfl) fun _ => ite_eq (fun _ => rfl) fun _ => ?_
  refine ite_eq (fun _ => same_controlStructure hij hi _ hlen) fun _ => ?_
  exact ite_eq (fun _ => same_declaration hij.group _ hlen) fun _ => hother

end

/-- The rules one level further in, where statements do the same on fewer tokens. -/
theorem same_nested {n m : Nat} (hn : k < n) (hm : k < m)
    (ih : ∀ l ≤ k, ∀ n m, l < n → l < m → SameUpTo l (statement n) (statement m)) :
    (nested n).SameUpTo k (nested m) where
  statement := ih k (Nat.le_refl k) n m hn hm
  block := by
    obtain ⟨n, rfl⟩ := Nat.exists_eq_add_one_of_ne_zero (Nat.ne_zero_of_lt hn)
    obtain ⟨m, rfl⟩ := Nat.exists_eq_add_one_of_ne_zero (Nat.ne_zero_of_lt hm)
    refine ⟨_, _, rfl, rfl, fun t ts ht hts => ?_⟩
    have hlen : ts.length < k := hts
    exact block_eq (ih ts.length (Nat.le_of_lt hlen) n m (by omega) (by omega))
      (composed_statement n) ht (Nat.le_refl _)
  group := same_group hn hm

/-- With more levels than tokens there are always levels left for a statement. -/
theorem same_statement {n m : Nat} (hn : k < n) (hm : k < m) :
    SameUpTo k (statement n) (statement m) := by
  induction k using Nat.strongRecOn generalizing n m with
  | _ k ih =>
    intro ts hts
    cases ts with
    | nil => rw [statement_nil, statement_nil]
    | cons t ts =>
      obtain ⟨n, rfl⟩ := Nat.exists_eq_add_one_of_ne_zero (Nat.ne_zero_of_lt hn)
      obtain ⟨m, rfl⟩ := Nat.exists_eq_add_one_of_ne_zero (Nat.ne_zero_of_lt hm)
      have hlen : ts.length < k := hts
      have hinner : (nested n).SameUpTo ts.length (nested m) :=
        same_nested (by omega) (by omega) fun l hl n m hn hm => ih l (by omega) hn hm
      rw [statement_succ, statement_succ]
      exact ite_eq (fun _ => rfl) fun _ =>
        bind_eq (construct_eq hinner (composite n) (Nat.le_refl _))

/-- A statement takes a token wherever one is left, and so does a function where a type starts. In a
list of statements none is dropped for want of progress. Every loop ends by itself, for each turn
that goes on takes a token, and the input is read to its end. The recursion ends by the tokens too:
with more levels than tokens it does not matter how many there are. -/
theorem rules_make_progress (room : Nat) (t : Token) (ts : List Token) :
    Consumes (statement room) t ∧ (t.isTypeKeyword = true → Consumes function t) ∧
      advancing (statement room) (t :: ts) = statement room (t :: ts) ∧ LoopsEnd room ∧
      (∀ (σ : Type) (step : σ → Token → Option σ) (s : σ),
        (spanFrom step s ts).value.1 ++ (spanFrom step s ts).rest = ts) ∧
      (∀ levels, ts.length < room → ts.length < levels → statement room ts = statement levels ts) ∧
      (∀ levels, ts.length ≤ room → ts.length ≤ levels → group room ts = group levels ts) ∧
      (program ts).rest = [] := by
  refine ⟨consumes_statement room t, consumes_function, advancing_statement room t ts,
    loopsEnd room, fun σ step s => spanFrom_taken step s ts, fun levels hroom hlevels => ?_,
    fun levels hroom hlevels => ?_, program_rest ts⟩
  · exact same_statement hroom hlevels ts (Nat.le_refl _)
  · exact same_group hroom hlevels ts (Nat.le_refl _)

/-- Two braces that are never closed need no more than three levels. -/
theorem rules_make_progress_braces :
    let int : Token := ⟨.keyword, "int", 1⟩
    let brace : Token := ⟨.separator, "\x7b", 1⟩
    int.isTypeKeyword = true ∧ Consumes function int ∧ [brace, brace].length < 3 ∧
      [brace, brace].length < maxNesting ∧
      statement 3 [brace, brace] = statement maxNesting [brace, brace] := by
  intro int brace
  have hint : int.isTypeKeyword = true := by decide
  have hthree : [brace, brace].length < 3 := by decide
  have hmax : [brace, brace].length < maxNesting := by decide
  obtain ⟨-, hfunction, -, -, -, hlevels, -, -⟩ := rules_make_progress 3 int [brace, brace]
  exact ⟨hint, hfunction hint, hthree, hmax, hlevels maxNesting hthree hmax⟩

end CAudit.Parse
