import CAudit.Proofs.Composition
import CAudit.Proofs.Concatenation

/-! Lines of warnings. A rule notes the line of a token that is ahead of it or that it has taken, or
leaves the line open for the end of the input. So every warning is on the line of a token, and a
token that starts no function is noted as skipped right after the warning about it. -/
namespace CAudit.Parse

variable {α β σ : Type} {whole : List Token}

/-- The line of a token in `whole`, or the end of the input. -/
def Known (whole : List Token) (line : Option Nat) : Prop := ∀ l ∈ line, ∃ t ∈ whole, t.line = l

theorem known_none : Known whole none := by
  intro l hl
  cases hl

theorem known_some {t : Token} (ht : t ∈ whole) : Known whole (some t.line) := by
  rintro l ⟨⟩
  exact ⟨t, ht, rfl⟩

/-- What the rules below the top level note. -/
structure Cited (whole : List Token) (d : Diagnostic) : Prop where
  line : Known whole d.line
  kind : d.kind ≠ .invalidTopLevel

/-- A reply that leaves tokens of `whole` and has notes on their lines. -/
structure Within (whole : List Token) (r : Reply α) : Prop where
  rest : r.rest ⊆ whole
  notes : ∀ d ∈ r.notes, Cited whole d

/-- Given tokens of `whole`, the rule stays within them. -/
def Cites (whole : List Token) (p : Parse α) : Prop := ∀ ts, ts ⊆ whole → Within whole (p ts)

theorem cites_pure (a : α) : Cites whole (pure a : Parse α) := fun _ hts =>
  ⟨hts, fun _ hd => absurd hd List.not_mem_nil⟩

theorem Within.andThen {r : Reply α} {s : Reply β} (hr : Within whole r) (hs : Within whole s) :
    Within whole (andThen r s) := by
  refine ⟨hs.rest, fun d hd => ?_⟩
  rcases List.mem_append.1 hd with hd | hd
  · exact hr.notes d hd
  · exact hs.notes d hd

theorem cites_bind {p : Parse α} {f : α → Parse β} (hp : Cites whole p)
    (hf : ∀ a, Cites whole (f a)) : Cites whole (p >>= f) := fun ts hts =>
  (hp ts hts).andThen (hf _ _ (hp ts hts).rest)

theorem cites_map {p : Parse α} (hp : Cites whole p) (g : α → β) :
    Cites whole (do return g (← p)) := cites_bind hp fun _ => cites_pure _

theorem cites_cases {p : Parse (Option α)} {f : Option α → Parse β} (hp : Cites whole p)
    (hsome : ∀ a, Cites whole (f (some a))) (hnone : Cites whole (f none)) :
    Cites whole (p >>= f) := cites_bind hp fun o => o.rec hnone hsome

theorem cites_ite {c : Prop} [Decidable c] {p q : Parse α} (hp : Cites whole p)
    (hq : Cites whole q) : Cites whole (if c then p else q) := by
  split
  · exact hp
  · exact hq

/-! ### Single tokens -/

theorem cites_mention (us : List Token) : Cites whole (mention us) := fun _ hts =>
  ⟨hts, fun _ hd => absurd hd List.not_mem_nil⟩

theorem cites_note {line : Option Nat} {kind : Diagnostic.Kind} {message : String}
    (hline : Known whole line) (hkind : kind ≠ .invalidTopLevel) :
    Cites whole (note line kind message) := by
  intro ts hts
  refine ⟨hts, fun d hd => ?_⟩
  obtain rfl := List.mem_singleton.1 hd
  exact ⟨hline, hkind⟩

theorem cites_note_pure {line : Option Nat} {kind : Diagnostic.Kind} {message : String}
    (hline : Known whole line) (hkind : kind ≠ .invalidTopLevel) (a : α) :
    Cites whole (note line kind message >>= fun _ => pure a) :=
  cites_bind (cites_note hline hkind) fun _ => cites_pure a

theorem cites_here {g : Option Nat → Parse β}
    (hg : ∀ line, Known whole line → Cites whole (g line)) :
    Cites whole (here >>= g) := by
  intro ts hts
  cases ts with
  | nil => exact hg none known_none [] hts
  | cons t us => exact hg _ (known_some (hts List.mem_cons_self)) (t :: us) hts

/-- A rule that gives one of the tokens, if any. -/
structure Finds (whole : List Token) (p : Parse (Option Token)) : Prop where
  cites : Cites whole p
  value : ∀ ts, ts ⊆ whole → ∀ t ∈ (p ts).value, t ∈ whole

/-- Behind a token that was found its line is known. -/
theorem Finds.cases {p : Parse (Option Token)} {f : Option Token → Parse β} (hp : Finds whole p)
    (hsome : ∀ t ∈ whole, Cites whole (f (some t))) (hnone : Cites whole (f none)) :
    Cites whole (p >>= f) := by
  intro ts hts
  have hf : Cites whole (f (p ts).value) := by
    cases hv : (p ts).value with
    | none => exact hnone
    | some t => exact hsome t (hp.value ts hts t hv)
  have hfirst := hp.cites ts hts
  exact hfirst.andThen (hf _ hfirst.rest)

theorem finds_peek : Finds whole peek where
  cites _ hts := ⟨hts, fun _ hd => absurd hd List.not_mem_nil⟩
  value _ hts _ ht := hts (List.mem_of_mem_head? ht)

theorem finds_next : Finds whole next where
  cites _ hts := ⟨fun _ hu => hts (List.mem_of_mem_tail hu), fun _ hd => absurd hd List.not_mem_nil⟩
  value _ hts _ ht := hts (List.mem_of_mem_head? ht)

theorem finds_accept (test : Token → Bool) : Finds whole (accept test) where
  cites ts hts := by
    cases ts with
    | nil => exact cites_pure (α := Option Token) none [] hts
    | cons t us =>
      rw [accept]
      split
      · exact cites_pure (some t) us (List.cons_subset.1 hts).2
      · exact cites_pure (α := Option Token) none (t :: us) hts
  value ts hts t ht := by
    cases ts with
    | nil => cases ht
    | cons u us =>
      rw [accept] at ht
      split at ht
      · obtain rfl : u = t := Option.some.inj ht
        exact hts List.mem_cons_self
      · cases ht

theorem expect_value (test : Token → Bool) (message : String) (ts : List Token) :
    (expect test message ts).value = (accept test ts).value := by
  rw [expect, bind_apply]
  cases h : (accept test ts).value <;> rfl

theorem finds_expect (test : Token → Bool) (message : String) :
    Finds whole (expect test message) where
  cites := by
    refine cites_cases (finds_accept test).cites (fun _ => cites_pure _) ?_
    refine cites_here fun line hline => ?_
    exact cites_note_pure hline (by decide) _
  value ts hts t ht := (finds_accept test).value ts hts t (expect_value test message ts ▸ ht)

theorem cites_noteLimit : Cites whole noteLimit :=
  cites_here fun _ hline => cites_note hline (by decide)

theorem cites_skipToken : Cites whole skipToken :=
  finds_next.cases (fun _ ht => cites_note (known_some ht) (by decide)) (cites_pure _)

theorem cites_skipDirective : Cites whole skipDirective :=
  finds_next.cases (fun _ ht => cites_note (known_some ht) (by decide)) (cites_pure _)

/-! ### Runs and repeated rules -/

theorem cites_spanFrom (step : σ → Token → Option σ) (s : σ) : Cites whole (spanFrom step s) := by
  intro ts hts
  obtain ⟨xs, s', rest, rfl, hxs, hstop⟩ := spanFrom_spec step s ts
  rw [spanFrom_append hxs hstop]
  exact ⟨(List.append_subset.1 hts).2, fun _ hd => absurd hd List.not_mem_nil⟩

theorem cites_spanWhile (test : Token → Bool) : Cites whole (spanWhile test) :=
  cites_map (cites_spanFrom _ _) _

theorem cites_loop {p : Parse (Turn α)} (hp : Cites whole p) : Cites whole (loop p) := by
  intro ts hts
  -- By the number of tokens: a turn that is followed by another takes one.
  induction hlen : ts.length using Nat.strongRecOn generalizing ts with
  | _ n ih =>
    have hturn := hp ts hts
    by_cases hmore : ∃ a, (p ts).value = .more a ∧ (p ts).rest.length < ts.length
    · obtain ⟨a, hv, hlt⟩ := hmore
      have hothers := hturn.andThen (ih _ (hlen ▸ hlt) _ hturn.rest rfl)
      rw [loop_more hv hlt]
      exact ⟨hothers.rest, hothers.notes⟩
    · rw [loop_last fun a hv hlt => hmore ⟨a, hv, hlt⟩]
      exact ⟨hturn.rest, hturn.notes⟩

theorem cites_many {p : Parse (Option α)} (hp : Cites whole p) : Cites whole (many p) :=
  cites_map (cites_loop (cites_cases hp (fun _ => cites_pure _) (cites_pure _))) _

theorem cites_advancing {p : Parse α} (hp : Cites whole p) : Cites whole (advancing p) := by
  intro ts hts
  have hfirst := hp ts hts
  rw [advancing]
  split
  · exact hfirst
  · have hskip := hfirst.andThen (cites_skipToken _ hfirst.rest)
    exact ⟨hskip.rest, hskip.notes⟩

/-! ### Expressions -/

theorem cites_operand : Cites whole operand :=
  finds_next.cases (fun _ _ => cites_bind (cites_mention _) fun _ => cites_pure _) (cites_pure _)

theorem cites_groupItem {g : Parse (List SyntaxTree)} (hg : Cites whole g) (closer : String) :
    Cites whole (groupItem g closer) := by
  refine finds_peek.cases (fun t _ => ?_) (cites_pure _)
  refine cites_ite (cites_pure _) (cites_ite (cites_map hg _) ?_)
  exact cites_ite cites_operand (cites_ite (cites_pure _) cites_operand)

theorem cites_group (n : Nat) : Cites whole (group n) := by
  induction n with
  | zero =>
    refine finds_next.cases (fun opener _ => ?_) (cites_pure _)
    exact cites_bind cites_noteLimit fun _ => cites_pure _
  | succ n ih =>
    refine finds_next.cases (fun opener hopener => ?_) (cites_pure _)
    refine cites_bind (cites_many (cites_groupItem ih _)) fun inner => ?_
    refine (finds_accept _).cases (fun _ _ => cites_pure _) ?_
    exact cites_note_pure (known_some hopener) (by decide) _

theorem cites_expressionItem (n : Nat) : Cites whole (expressionItem n) := by
  refine finds_peek.cases (fun t _ => ?_) (cites_pure _)
  exact cites_ite (cites_map (cites_group n) _) (cites_ite (cites_pure _) cites_operand)

theorem cites_expressionItems (n : Nat) : Cites whole (expressionItems n) :=
  cites_map (cites_many (cites_expressionItem n)) _

theorem cites_expression (n : Nat) (c : Construct) : Cites whole (expression n c) :=
  cites_map (cites_expressionItems n) _

/-! ### Declarations -/

theorem cites_typeSpec : Cites whole typeSpec :=
  cites_bind (cites_spanFrom _ _) fun _ => cites_map (cites_spanWhile _) _

theorem cites_arraySize (n : Nat) : Cites whole (arraySize n) := by
  refine (finds_accept _).cases (fun opener _ => ?_) (cites_pure _)
  refine cites_bind (cites_expression n _) fun size => ?_
  exact (finds_expect _ _).cases (fun _ _ => cites_pure _) (cites_pure _)

/-- The list is noted at its first token, which is taken by then. -/
theorem cites_initializerList : Cites whole initializerList := by
  refine cites_here fun line hline => cites_bind (cites_spanFrom _ _) fun x => ?_
  refine cites_bind (cites_mention _) fun _ => ?_
  exact cites_ite (cites_note_pure hline (by decide) _) (cites_pure _)

theorem cites_initializer (n : Nat) : Cites whole (initializer n) := by
  refine (finds_accept _).cases (fun assign _ => ?_) (cites_pure _)
  refine cites_bind finds_peek.cites fun o => ?_
  exact cites_ite (cites_map cites_initializerList _) (cites_map (cites_expression n _) _)

theorem cites_declarator (n : Nat) : Cites whole (declarator n) := by
  refine cites_bind (cites_spanWhile _) fun pointer => ?_
  refine (finds_expect _ _).cases (fun name _ => ?_) (cites_pure _)
  refine cites_cases (cites_loop (cites_arraySize n)) (fun sizes => ?_) (cites_pure _)
  exact cites_map (cites_initializer n) _

theorem cites_nextDeclarator (n : Nat) : Cites whole (nextDeclarator n) := by
  refine (finds_accept _).cases (fun comma _ => ?_) (cites_pure _)
  exact cites_cases (cites_declarator n) (fun _ => cites_pure _) (cites_pure _)

theorem cites_declaration (n : Nat) : Cites whole (declaration n) := by
  refine cites_bind cites_typeSpec fun type => ?_
  refine cites_cases (cites_declarator n) (fun first => ?_) (cites_pure _)
  refine cites_cases (cites_loop (cites_nextDeclarator n)) (fun others => ?_) (cites_pure _)
  exact (finds_expect _ _).cases (fun _ _ => cites_pure _) (cites_pure _)

/-! ### Statements -/

theorem cites_emptyStatement : Cites whole emptyStatement :=
  finds_next.cases (fun _ _ => cites_pure _) (cites_pure _)

theorem cites_returnStatement (n : Nat) : Cites whole (returnStatement n) := by
  refine finds_next.cases (fun keyword _ => ?_) (cites_pure _)
  refine cites_bind (cites_expressionItems n) fun items => ?_
  exact (finds_expect _ _).cases (fun _ _ => cites_pure _) (cites_pure _)

theorem cites_jumpTarget (keyword : Token) : Cites whole (jumpTarget keyword) :=
  cites_ite ((finds_expect _ _).cases (fun _ _ => cites_pure _) (cites_pure _)) (cites_pure _)

theorem cites_jumpStatement : Cites whole jumpStatement := by
  refine finds_next.cases (fun keyword _ => ?_) (cites_pure _)
  refine cites_cases (cites_jumpTarget keyword) (fun target => ?_) (cites_pure _)
  exact (finds_expect _ _).cases (fun _ _ => cites_pure _) (cites_pure _)

theorem cites_labelStatement : Cites whole labelStatement := by
  refine finds_next.cases (fun keyword _ => ?_) (cites_pure _)
  refine cites_bind (cites_spanWhile _) fun ts => cites_bind (cites_mention _) fun _ => ?_
  refine (finds_accept _).cases (fun _ _ => cites_pure _) ?_
  exact cites_here fun _ hline => cites_note_pure hline (by decide) _

theorem cites_nextExpression (n : Nat) : Cites whole (nextExpression n) :=
  (finds_accept _).cases (fun _ _ => cites_map (cites_expression n _) _) (cites_pure _)

theorem cites_expressionStatement (n : Nat) : Cites whole (expressionStatement n) := by
  refine cites_here fun line hline => cites_bind (cites_expression n _) fun first => ?_
  refine cites_bind (cites_many (cites_nextExpression n)) fun others => ?_
  refine (finds_accept _).cases (fun _ _ => cites_pure _) ?_
  exact cites_note_pure hline (by decide) _

theorem cites_condition {keyword : Token} (hk : keyword ∈ whole) :
    Cites whole (condition keyword) := by
  refine cites_bind (cites_spanFrom _ _) fun x => cites_bind (cites_mention _) fun _ => ?_
  refine (finds_accept _).cases (fun _ _ => cites_pure _) ?_
  exact cites_note_pure (known_some hk) (by decide) _

theorem cites_statements {p : Parse (Option SyntaxTree)} (hp : Cites whole p) :
    Cites whole (statements p) := by
  have hitem : Cites whole (statementItem p) :=
    finds_peek.cases (fun _ _ => cites_ite (cites_pure _) (cites_map (cites_advancing hp) _))
      (cites_pure _)
  exact cites_map (cites_many hitem) _

theorem cites_block {p : Parse (Option SyntaxTree)} (hp : Cites whole p) :
    Cites whole (block p) := by
  refine cites_here fun line hline => cites_bind (finds_accept _).cites fun opener => ?_
  refine cites_bind (cites_statements hp) fun body => ?_
  refine (finds_accept _).cases (fun _ _ => cites_pure _) ?_
  exact cites_note_pure hline (by decide) _

/-- The rules one level further in. -/
structure Nested.Citing (whole : List Token) (inner : Nested) : Prop where
  statement : Cites whole inner.statement
  block : ∀ p ∈ inner.block, Cites whole p

theorem cites_body {inner : Nested} (hi : inner.Citing whole) (keyword : String) :
    Cites whole (body inner keyword) := by
  refine finds_peek.cases (fun t _ => ?_) ?_
  · refine cites_ite ?_ (cites_map hi.statement _)
    cases hb : inner.block with
    | none => exact cites_bind cites_noteLimit fun _ => cites_pure _
    | some p => exact cites_map (hi.block p hb) _
  · exact cites_note_pure known_none (by decide) _

theorem cites_elseBranch {inner : Nested} (hi : inner.Citing whole) (keyword : Token) :
    Cites whole (elseBranch inner keyword) :=
  cites_ite ((finds_accept _).cases (fun _ _ => cites_map (cites_body hi _) _) (cites_pure _))
    (cites_pure _)

theorem cites_controlStructure {inner : Nested} (hi : inner.Citing whole) :
    Cites whole (controlStructure inner) := by
  refine finds_next.cases (fun keyword hk => ?_) (cites_pure _)
  refine (finds_expect _ _).cases (fun opener _ => ?_) (cites_pure _)
  refine cites_bind (cites_condition hk) fun cond => ?_
  refine cites_bind (cites_body hi _) fun main => ?_
  exact cites_map (cites_elseBranch hi keyword) _

theorem cites_doWhile {inner : Nested} (hi : inner.Citing whole) : Cites whole (doWhile inner) := by
  refine finds_next.cases (fun keyword _ => ?_) (cites_pure _)
  refine cites_bind (cites_body hi _) fun main => ?_
  refine (finds_accept _).cases (fun while_ hw => ?_) ?_
  · refine (finds_expect _ _).cases (fun opener _ => ?_) (cites_pure _)
    refine cites_bind (cites_condition hw) fun cond => ?_
    exact (finds_expect _ _).cases (fun _ _ => cites_pure _) (cites_pure _)
  · exact cites_here fun _ hline => cites_note_pure hline (by decide) _

theorem cites_skipUnhandled {t : Token} (ht : t ∈ whole) : Cites whole (skipUnhandled t) :=
  cites_bind (cites_note (known_some ht) (by decide)) fun _ => cites_map finds_next.cites _

theorem cites_construct {inner : Nested} (hi : inner.Citing whole) {t : Token} (ht : t ∈ whole) :
    Cites whole (construct inner t) := by
  have hother : Cites whole (if t.startsExpression then expressionStatement inner.room
      else skipUnhandled t) :=
    cites_ite (cites_expressionStatement _) (cites_skipUnhandled ht)
  refine cites_ite (cites_map (cites_block hi.statement) _) ?_
  refine cites_ite cites_emptyStatement (cites_ite ?_ hother)
  refine cites_ite (cites_returnStatement _) (cites_ite (cites_doWhile hi) ?_)
  refine cites_ite cites_jumpStatement (cites_ite cites_labelStatement ?_)
  exact cites_ite (cites_controlStructure hi) (cites_ite (cites_declaration _) hother)

theorem nested_citing {n : Nat} (h : ∀ m ≤ n, Cites whole (statement m)) :
    (nested n).Citing whole where
  statement := h n (Nat.le_refl n)
  block p hp := by
    cases n with
    | zero => simp [nested] at hp
    | succ m =>
      obtain rfl : block (statement m) = p := by simpa [nested] using hp
      exact cites_block (h m (Nat.le_succ m))

theorem cites_statement (n : Nat) : Cites whole (statement n) := by
  induction n using Nat.strongRecOn with
  | _ n ih =>
    rw [statement_eq]
    refine finds_peek.cases (fun t ht => ?_) (cites_pure _)
    refine cites_ite (cites_bind cites_skipDirective fun _ => cites_pure _) ?_
    cases n with
    | zero => exact cites_bind cites_noteLimit fun _ => cites_map finds_next.cites _
    | succ m =>
      have hi := nested_citing fun k hk => ih k (Nat.lt_succ_of_le hk)
      exact cites_map (cites_construct hi ht) _

/-! ### Functions -/

theorem cites_parameters : Cites whole parameters := by
  refine cites_bind (cites_spanFrom _ _) fun x => ?_
  refine (finds_accept _).cases (fun _ _ => cites_pure _) ?_
  refine finds_peek.cases (fun t ht => ?_) ?_
  · exact cites_note_pure (known_some ht) (by decide) _
  · exact cites_note_pure known_none (by decide) _

theorem cites_functionBody : Cites whole functionBody := by
  refine cites_bind (cites_statements (cites_statement maxNesting)) fun list => ?_
  refine (finds_accept _).cases (fun _ _ => cites_pure _) ?_
  exact cites_here fun _ hline => cites_note_pure hline (by decide) _

theorem cites_function : Cites whole function := by
  refine cites_bind cites_typeSpec fun type => ?_
  refine (finds_expect _ _).cases (fun name _ => ?_) (cites_pure _)
  refine (finds_expect _ _).cases (fun opener _ => ?_) (cites_pure _)
  refine cites_cases cites_parameters (fun params => ?_) (cites_pure _)
  refine (finds_accept _).cases (fun _ _ => cites_pure _) ?_
  exact (finds_expect _ _).cases (fun _ _ => cites_map cites_functionBody _) (cites_pure _)

/-! ### Whole sources -/

/-- Notes on lines of some sort, in which a token that starts no function is noted as skipped right
away. -/
inductive Noted (Line : Option Nat → Prop) : List Diagnostic → Prop
  | nil : Noted Line []
  | cons {d : Diagnostic} {ds : List Diagnostic} : Line d.line → d.kind ≠ .invalidTopLevel →
      Noted Line ds → Noted Line (d :: ds)
  | pair {line : Option Nat} {problem skip : String} {ds : List Diagnostic} : Line line →
      Noted Line ds →
      Noted Line (⟨line, .invalidTopLevel, problem⟩ :: ⟨line, .skippedToken, skip⟩ :: ds)

theorem Noted.append {Line : Option Nat → Prop} {ds es : List Diagnostic} (hd : Noted Line ds)
    (he : Noted Line es) : Noted Line (ds ++ es) := by
  induction hd with
  | nil => exact he
  | cons hline hkind _ ih => exact .cons hline hkind ih
  | pair hline _ ih => exact .pair hline ih

theorem noted_of_cited {ds : List Diagnostic} (h : ∀ d ∈ ds, Cited whole d) :
    Noted (Known whole) ds := by
  induction ds with
  | nil => exact .nil
  | cons d ds ih =>
    obtain ⟨hd, hds⟩ := List.forall_mem_cons.1 h
    exact .cons hd.line hd.kind (ih hds)

/-- A token that starts no function is skipped, and both are noted on its line. -/
theorem advancing_external_notes {t : Token} (ht : t.isTypeKeyword = false) (ts : List Token) :
    advancing (external t) (t :: ts) =
      ⟨[], ts, [⟨some t.line, .invalidTopLevel, "Invalid function definition"⟩,
        ⟨some t.line, .skippedToken, "Skipping unrecognized token: " ++ t.describe⟩], []⟩ := by
  have hexternal : external t (t :: ts) =
      ⟨[], t :: ts, [⟨some t.line, .invalidTopLevel, "Invalid function definition"⟩], []⟩ := by
    rw [external, ht]
    rfl
  rw [advancing, hexternal, if_neg (Nat.lt_irrefl _)]
  rfl

theorem topLevelItem_noted {ts : List Token} (hts : ts ⊆ whole) :
    (topLevelItem ts).rest ⊆ whole ∧ Noted (Known whole) (topLevelItem ts).notes := by
  have hwithin {r : Reply (Option (List SyntaxTree))} (h : Within whole r) :
      r.rest ⊆ whole ∧ Noted (Known whole) r.notes := ⟨h.rest, noted_of_cited h.notes⟩
  cases ts with
  | nil => exact hwithin (cites_pure none [] hts)
  | cons t us =>
    obtain ⟨ht, hus⟩ := List.cons_subset.1 hts
    rw [topLevelItem_cons]
    split
    · exact hwithin (cites_bind cites_skipDirective (fun _ => cites_pure _) _ hts)
    · cases htype : t.isTypeKeyword with
      | true =>
        have hfunction : Cites whole (external t) := by
          rw [external, htype]
          exact cites_map cites_function _
        exact hwithin (cites_map (cites_advancing hfunction) _ _ hts)
      | false =>
        rw [bind_apply, advancing_external_notes htype]
        exact ⟨hus, .pair (known_some ht) .nil⟩

theorem loop_topLevelItem_noted {ts : List Token} (hts : ts ⊆ whole) :
    Noted (Known whole) (loop (turn topLevelItem) ts).notes := by
  -- By the number of tokens, as for the rules inside an item.
  induction hlen : ts.length using Nat.strongRecOn generalizing ts with
  | _ n ih =>
    obtain ⟨hrest, hnotes⟩ := topLevelItem_noted hts
    have hturn : (turn topLevelItem ts).rest = (topLevelItem ts).rest ∧
        (turn topLevelItem ts).notes = (topLevelItem ts).notes := by
      rw [turn_apply]
      exact ⟨rfl, rfl⟩
    rw [← hturn.1] at hrest
    rw [← hturn.2] at hnotes
    by_cases hmore : ∃ a, (turn topLevelItem ts).value = .more a ∧
        (turn topLevelItem ts).rest.length < ts.length
    · obtain ⟨a, hv, hlt⟩ := hmore
      rw [loop_more hv hlt]
      exact hnotes.append (ih _ (hlen ▸ hlt) hrest rfl)
    · rw [loop_last fun a hv hlt => hmore ⟨a, hv, hlt⟩]
      exact hnotes

theorem program_noted (ts : List Token) : Noted (Known ts) (program ts).notes := by
  rw [program_apply]
  exact loop_topLevelItem_noted (List.Subset.refl ts)

/-! ### Warnings -/

section

variable {Line : Option Nat → Prop} {ds : List Diagnostic}

theorem Noted.endingAt {Line' : Option Nat → Prop} {last : Option Nat}
    (hlast : ∀ line, Line line → Line' (line.or last)) (h : Noted Line ds) :
    Noted Line' (ds.map (·.endingAt last)) := by
  induction h with
  | nil => exact .nil
  | cons hline hkind _ ih => exact .cons (hlast _ hline) hkind ih
  | pair hline _ ih => exact .pair (hlast _ hline) ih

theorem Noted.filter {k : Diagnostic.Kind} (hk : k ≠ .invalidTopLevel ∧ k ≠ .skippedToken)
    (h : Noted Line ds) : Noted Line (ds.filter (·.kind ≠ k)) := by
  induction h with
  | nil => exact .nil
  | cons hline hkind _ ih =>
    rw [List.filter_cons]
    split
    · exact .cons hline hkind ih
    · exact ih
  | pair hline _ ih =>
    rw [List.filter_cons_of_pos (by simpa using hk.1.symm),
      List.filter_cons_of_pos (by simpa using hk.2.symm)]
    exact .pair hline ih

theorem Noted.onceOnly {k : Diagnostic.Kind} (hk : k ≠ .invalidTopLevel ∧ k ≠ .skippedToken)
    (h : Noted Line ds) : Noted Line (Diagnostic.onceOnly k ds) := by
  induction h with
  | nil => exact .nil
  | cons hline hkind hds ih =>
    rw [Diagnostic.onceOnly]
    split
    · exact .cons hline hkind (hds.filter hk)
    · exact .cons hline hkind ih
  | pair hline _ ih =>
    rw [Diagnostic.onceOnly, if_neg hk.1.symm, Diagnostic.onceOnly, if_neg hk.2.symm]
    exact .pair hline ih

theorem Noted.line (h : Noted Line ds) : ∀ d ∈ ds, Line d.line := by
  induction h with
  | nil => exact fun d hd => absurd hd List.not_mem_nil
  | cons hline _ _ ih => exact List.forall_mem_cons.2 ⟨hline, ih⟩
  | pair hline _ ih =>
    exact List.forall_mem_cons.2 ⟨hline, List.forall_mem_cons.2 ⟨hline, ih⟩⟩

theorem Noted.skipped (h : Noted Line ds) {i : Nat} {d : Diagnostic} (hd : ds[i]? = some d)
    (hkind : d.kind = .invalidTopLevel) :
    ∃ e, ds[i + 1]? = some e ∧ e.kind = .skippedToken ∧ e.line = d.line := by
  induction h generalizing i with
  | nil => cases hd
  | cons _ hother _ ih =>
    cases i with
    | zero =>
      obtain rfl := Option.some.inj hd
      exact absurd hkind hother
    | succ i => exact ih hd
  | pair _ _ ih =>
    cases i with
    | zero =>
      obtain rfl := Option.some.inj hd
      exact ⟨_, rfl, rfl, rfl⟩
    | succ i =>
      cases i with
      | zero =>
        obtain rfl := Option.some.inj hd
        cases hkind
      | succ i => exact ih hd

end

/-- Where a token is left, the end of the input has the line of the last one. -/
theorem warnings_noted (ts : List Token) :
    Noted (fun line => ∃ t ∈ ts, line = some t.line) (parseTokens ts).warnings := by
  have hends : Noted (fun line => ∃ t ∈ ts, line = some t.line)
      ((program ts).notes.map (·.endingAt (ts.getLast?.map (·.line)))) := by
    rcases List.eq_nil_or_concat ts with rfl | ⟨us, u, rfl⟩
    · have hnone : (program []).notes = [] := by
        rw [program_apply, loop]
        rfl
      rw [hnone]
      exact .nil
    · refine (program_noted _).endingAt fun line hline => ?_
      cases line with
      | none => exact ⟨u, by simp, by simp⟩
      | some l =>
        obtain ⟨t, ht, rfl⟩ := hline l rfl
        exact ⟨t, ht, rfl⟩
  exact hends.onceOnly (by decide)

end CAudit.Parse

namespace CAudit

theorem Diagnostic.describe_of_line {d : Diagnostic} {n : Nat} (h : d.line = some n) :
    d.describe = n.repr ++ ": " ++ d.message := by
  rw [describe, h]

/-- A diagnostic with a line is not shown as one at the end of the input. -/
theorem Diagnostic.not_eof_prefix {d : Diagnostic} {n : Nat} (h : d.line = some n) :
    ¬ "EOF: ".toList <+: d.describe.toList := by
  rw [describe_of_line h, String.toList_append, String.toList_append, Nat.toList_repr]
  rintro ⟨rest, hrest⟩
  cases hdigits : Nat.toDigits 10 n with
  | nil => exact Nat.toDigits_ne_nil hdigits
  | cons c cs =>
    rw [hdigits] at hrest
    have hc : 'E' = c := (List.cons.inj hrest).1
    have hdigit := Nat.isDigit_of_mem_toDigits (b := 10) (n := n) (c := c) (by decide) (by decide)
      (hdigits ▸ List.mem_cons_self)
    rw [← hc] at hdigit
    cases hdigit

/-- Every warning is on the line of a token, so that none is shown as being at the end of the input.
Right after the warning that a token starts no function, the token is noted as skipped. -/
theorem warnings_point_at_tokens (ts : List Token) :
    (∀ w ∈ (parseTokens ts).warnings, (∃ t ∈ ts, w.line = some t.line) ∧
      ¬ "EOF: ".toList <+: w.describe.toList) ∧
    ∀ i w, (parseTokens ts).warnings[i]? = some w → w.kind = .invalidTopLevel →
      ∃ v, (parseTokens ts).warnings[i + 1]? = some v ∧ v.kind = .skippedToken ∧
        v.line = w.line := by
  have hnoted := Parse.warnings_noted ts
  refine ⟨fun w hw => ?_, fun i w hw hkind => hnoted.skipped hw hkind⟩
  obtain ⟨t, ht, hline⟩ := hnoted.line w hw
  exact ⟨⟨t, ht, hline⟩, Diagnostic.not_eof_prefix hline⟩

/-- A token that starts no function, and a function that the input ends in: the warning on the
missing bracket is on the line of the last token. -/
theorem warnings_point_at_tokens_unclosed :
    let ts : List Token := [⟨.identifier, "x", 2⟩, ⟨.keyword, "int", 5⟩, ⟨.identifier, "f", 5⟩,
      ⟨.separator, "(", 7⟩]
    (parseTokens ts).warnings.map (·.line) = [some 2, some 2, some 7] ∧
    (∀ w ∈ (parseTokens ts).warnings, ¬ "EOF: ".toList <+: w.describe.toList) ∧
    ∃ v, (parseTokens ts).warnings[1]? = some v ∧ v.kind = .skippedToken ∧ v.line = some 2 := by
  intro ts
  have hpoint := warnings_point_at_tokens ts
  have hfirst : (parseTokens ts).warnings[0]?.map (fun w => (w.kind, w.line)) =
      some (.invalidTopLevel, some 2) := by decide +kernel
  obtain ⟨w, hw, heq⟩ := Option.map_eq_some_iff.1 hfirst
  obtain ⟨hkind, hline⟩ := Prod.mk.inj heq
  refine ⟨by decide +kernel, fun w hw => (hpoint.1 w hw).2, ?_⟩
  exact hline ▸ hpoint.2 0 w hw hkind

end CAudit
