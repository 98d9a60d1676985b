import CAudit.Proofs.Composition
import CAudit.Proofs.Context

/-! Every rule gets ahead. A statement takes the token that it starts with, whatever it is and
however many levels are left, and so does a function that starts with a type. A repeated rule takes
a token each time that it goes on, so the loops come to their end by themselves: neither the check
on the tokens left nor the token dropped in a list of statements is ever what stops them. -/
namespace CAudit.Parse

variable {α β σ : Type}

theorem shrinks_spanFrom (step : σ → Token → Option σ) (s : σ) : Shrinks (spanFrom step s) := by
  intro ts
  obtain ⟨xs, s', rest, rfl, hxs, hstop⟩ := spanFrom_spec step s ts
  rw [spanFrom_append hxs hstop]
  exact List.suffix_append xs rest

theorem shrinks_loop {p : Parse (Turn α)} (hp : Shrinks p) : Shrinks (loop p) := by
  intro ts
  induction hlen : ts.length using Nat.strongRecOn generalizing ts with
  | _ n ih =>
    have hts := hp ts
    rw [loop]
    cases (p ts).value with
    | stop => exact hts
    | abandon => exact hts
    | more a =>
      by_cases hlt : (p ts).rest.length < ts.length
      · simp only [hlt, if_true]
        exact (ih _ (hlen ▸ hlt) _ rfl).trans hts
      · simp only [hlt, if_false]
        exact hts

theorem shrinks_advancing {p : Parse α} (hp : Shrinks p) : Shrinks (advancing p) := by
  intro ts
  have hts := hp ts
  unfold advancing
  by_cases hlt : (p ts).rest.length < ts.length
  · simp only [hlt, if_true]
    exact hts
  · simp only [hlt, if_false]
    have htail : (skipToken (p ts).rest).rest = (p ts).rest.tail := by
      cases (p ts).rest <;> rfl
    rw [htail]
    exact (List.tail_suffix _).trans hts

/-- Whatever a rule leaves is the end of what it was given. -/
theorem Composed.shrinks {p : Parse α} (h : Composed p) : Shrinks p := by
  induction h with
  | pure a => exact shrinks_pure a
  | bind _ _ hp hf => exact shrinks_bind hp hf
  | peek => exact fun _ => List.suffix_rfl
  | here => exact shrinks_here
  | next => exact fun ts => List.tail_suffix ts
  | accept test => exact shrinks_accept test
  | note _ => exact shrinks_note _ _ _
  | operand =>
    intro ts
    cases ts with
    | nil => exact List.suffix_rfl
    | cons t ts => exact List.suffix_cons t ts
  | spanFrom step s => exact shrinks_spanFrom step s
  | spanFrom_mention _ hf =>
    exact shrinks_bind (shrinks_spanFrom _ _) fun x => hf x
  | loop _ hp => exact shrinks_loop hp
  | advancing _ hp => exact shrinks_advancing hp

/-- A rule that leaves fewer tokens than it was given has taken the first one. -/
theorem Composed.takes {p : Parse α} (hp : Composed p) {t : Token} {ts : List Token}
    (hlt : (p (t :: ts)).rest.length < (t :: ts).length) : (p (t :: ts)).rest <:+ ts := by
  rcases List.suffix_cons_iff.1 (hp.shrinks (t :: ts)) with heq | hsuffix
  · rw [heq] at hlt
    exact absurd hlt (Nat.lt_irrefl _)
  · exact hsuffix

/-- A note about anything but a directive. -/
theorem Composed.warn {line : Option Nat} {kind : Diagnostic.Kind} {message : String}
    (h : kind ≠ .skippedPreprocessor) : Composed (Parse.note line kind message) :=
  .note fun hkind => absurd hkind h

/-- A rule that starts at the token `t` takes it: what it leaves is an end of what follows `t`. -/
def Consumes (p : Parse α) (t : Token) : Prop := ∀ ts, (p (t :: ts)).rest <:+ ts

theorem Consumes.length_lt {p : Parse α} {t : Token} (h : Consumes p t) (ts : List Token) :
    (p (t :: ts)).rest.length < (t :: ts).length := Nat.lt_succ_of_le (h ts).length_le

section

variable {t : Token}

theorem Consumes.bind {p : Parse α} {f : α → Parse β} (hp : Consumes p t)
    (hf : ∀ a, Composed (f a)) : Consumes (p >>= f) t := fun ts =>
  ((hf _).shrinks _).trans (hp ts)

theorem consumes_here {f : Option Nat → Parse β} (h : ∀ line, Consumes (f line) t) :
    Consumes (here >>= f) t := fun ts => h (some t.line) ts

theorem consumes_note {f : Unit → Parse β} {line : Option Nat} {kind : Diagnostic.Kind}
    {message : String} (h : Consumes (f ()) t) : Consumes (note line kind message >>= f) t := h

theorem consumes_next {f : Option Token → Parse β} (h : Composed (f (some t))) :
    Consumes (next >>= f) t := fun ts => h.shrinks ts

theorem consumes_accept {test : Token → Bool} (ht : test t = true) :
    Consumes (accept test) t := by
  intro ts
  simp [accept, ht]

theorem consumes_ite {c : Prop} [Decidable c] {p q : Parse β} (hp : c → Consumes p t)
    (hq : ¬ c → Consumes q t) : Consumes (if c then p else q) t := by
  split
  · next h => exact hp h
  · next h => exact hq h

theorem consumes_spanFrom {step : σ → Token → Option σ} {s s' : σ} (ht : step s t = some s') :
    Consumes (spanFrom step s) t := by
  intro ts
  have hrest : (spanFrom step s (t :: ts)).rest = (spanFrom step s' ts).rest := by
    simp [spanFrom, ht]
  rw [hrest]
  exact shrinks_spanFrom step s' ts

theorem consumes_operand : Consumes operand t := fun _ => List.suffix_rfl

theorem consumes_group (room : Nat) : Consumes (group room) t := by
  cases room with
  | zero => exact consumes_next (.bind .noteLimit fun _ => .pure _)
  | succ room =>
    refine consumes_next (.bind (.many (composed_groupItem (composed_group room) _)) fun _ => ?_)
    exact .cases (.accept _) (fun _ => .pure _) (.bind (.warn (by decide)) fun _ => .pure _)

theorem expressionItem_cons (room : Nat) (t : Token) (ts : List Token) :
    expressionItem room (t :: ts) =
      (if t.opensGroup then group room >>= fun g => pure (some g)
        else if t.endsExpression then pure none else operand :
        Parse (Option (List SyntaxTree))) (t :: ts) := rfl

theorem consumes_typeSpec (ht : t.isTypeKeyword = true) : Consumes typeSpec t := by
  have hstep : typeStep false t = some t.takesTag := by simp [typeStep, ht]
  exact (consumes_spanFrom hstep).bind fun _ => .map (.spanWhile _) _

theorem consumes_skipDirective : Consumes skipDirective t :=
  consumes_next (.note fun _ => rfl)

theorem consumes_skipUnhandled (u : Token) : Consumes (skipUnhandled u) t :=
  consumes_note (consumes_next (.pure _))

theorem turn_value {p : Parse (Option α)} {ts : List Token} {a : α}
    (h : (turn p ts).value = .more a) : (p ts).value = some a := by
  rw [turn_apply] at h
  cases hv : (p ts).value with
  | none => simp [hv] at h
  | some b =>
    rw [hv] at h
    cases h
    rfl

/-- A repeated rule that goes on at the token `t` and takes it. -/
theorem consumes_many {p : Parse (Option α)} (hp : Composed p)
    (hsome : ∀ ts, ∃ a, (p (t :: ts)).value = some a) (ht : Consumes p t) :
    Consumes (many p) t := by
  intro ts
  obtain ⟨a, ha⟩ := hsome ts
  obtain ⟨hturn, hrest⟩ := turn_of_some ha
  have hlt := ht.length_lt ts
  have hloop : (many p (t :: ts)).rest = (loop (turn p) (p (t :: ts)).rest).rest := by
    rw [many_apply, loop]
    simp only [hturn, hrest, hlt, if_true]
  have hcomposed : Composed (turn p) := .cases hp (fun _ => .pure _) (.pure _)
  rw [hloop]
  exact (shrinks_loop hcomposed.shrinks _).trans (ht ts)

end

/-- Repeating a rule with no check on the tokens left. A rule that went on for ever would give no
reply here. -/
inductive Repeats (p : Parse (Turn α)) : List Token → Reply (Option (List α)) → Prop
  | stop {ts : List Token} : (p ts).value = .stop →
      Repeats p ts ⟨some [], (p ts).rest, (p ts).notes, (p ts).uses⟩
  | abandon {ts : List Token} : (p ts).value = .abandon →
      Repeats p ts ⟨none, (p ts).rest, (p ts).notes, (p ts).uses⟩
  | more {ts : List Token} {a : α} {s : Reply (Option (List α))} : (p ts).value = .more a →
      Repeats p (p ts).rest s →
      Repeats p ts
        ⟨s.value.map (a :: ·), s.rest, (p ts).notes ++ s.notes, (p ts).uses ++ s.uses⟩

theorem Repeats.unique {p : Parse (Turn α)} {ts : List Token} {r s : Reply (Option (List α))}
    (hr : Repeats p ts r) (hs : Repeats p ts s) : r = s := by
  induction hr generalizing s with
  | stop h =>
    cases hs with
    | stop => rfl
    | abandon h' => simp [h] at h'
    | more h' => simp [h] at h'
  | abandon h =>
    cases hs with
    | stop h' => simp [h] at h'
    | abandon => rfl
    | more h' => simp [h] at h'
  | more h _ ih =>
    cases hs with
    | stop h' => simp [h] at h'
    | abandon h' => simp [h] at h'
    | more h' hs =>
      rw [h] at h'
      cases h'
      rw [ih hs]

/-- A loop that ends by itself: each turn that goes on leaves fewer tokens, and repeating the rule
with no check gives one reply, which is that of `loop`. -/
structure Ends (p : Parse (Turn α)) : Prop where
  decreases : ∀ ts a, (p ts).value = .more a → (p ts).rest.length < ts.length
  reply : ∀ ts r, Repeats p ts r ↔ r = loop p ts

theorem repeats_loop {p : Parse (Turn α)}
    (hp : ∀ ts a, (p ts).value = .more a → (p ts).rest.length < ts.length) (ts : List Token) :
    Repeats p ts (loop p ts) := by
  induction hlen : ts.length using Nat.strongRecOn generalizing ts with
  | _ n ih =>
    rw [loop]
    cases hv : (p ts).value with
    | stop => exact .stop hv
    | abandon => exact .abandon hv
    | more a =>
      have hlt := hp ts a hv
      simp only [hlt, if_true]
      exact .more hv (ih _ (hlen ▸ hlt) _ rfl)

theorem Ends.of_decreases {p : Parse (Turn α)}
    (hp : ∀ ts a, (p ts).value = .more a → (p ts).rest.length < ts.length) : Ends p where
  decreases := hp
  reply ts r := by
    constructor
    · exact fun h => h.unique (repeats_loop hp ts)
    · rintro rfl
      exact repeats_loop hp ts

/-- At each token the rule stops or takes it, and it stops at the end of the input. -/
theorem Ends.of_turn {p : Parse (Option α)} (hnil : (p []).value = none)
    (hp : ∀ t ts, (p (t :: ts)).value = none ∨ (p (t :: ts)).rest <:+ ts) : Ends (turn p) := by
  refine .of_decreases fun ts a h => ?_
  have hv := turn_value h
  rw [turn_apply]
  cases ts with
  | nil => simp [hnil] at hv
  | cons t ts =>
    rcases hp t ts with hnone | hrest
    · simp [hnone] at hv
    · exact Nat.lt_succ_of_le hrest.length_le

section

variable {t : Token}

theorem Consumes.of_advances {p : Parse α} (hp : Composed p) (h : Advances p [t]) :
    Consumes p t := fun ts => hp.takes (h ts)

theorem consumes_emptyStatement : Consumes emptyStatement t := consumes_next (.pure _)

theorem consumes_returnStatement (room : Nat) : Consumes (returnStatement room) t :=
  consumes_next (.bind (composed_expressionItems room) fun _ =>
    .cases (.expect _ _) (fun _ => .pure _) (.pure _))

theorem consumes_jumpStatement : Consumes jumpStatement t :=
  consumes_next (.cases (composed_jumpTarget t)
    (fun _ => .cases (.expect _ _) (fun _ => .pure _) (.pure _)) (.pure _))

theorem consumes_labelStatement : Consumes labelStatement t :=
  consumes_next (.spanWhile_mention fun _ => .cases (.accept _) (fun _ => .pure _)
    (.bind .here fun _ => .bind (.warn (by decide)) fun _ => .pure _))

theorem consumes_declaration (room : Nat) (ht : t.isTypeKeyword = true) :
    Consumes (declaration room) t := by
  refine (consumes_typeSpec ht).bind fun type => ?_
  refine .cases (composed_declarator room) (fun first => ?_) (.pure _)
  refine .cases (.loop (composed_nextDeclarator room)) (fun others => ?_) (.pure _)
  exact .cases (.expect _ _) (fun _ => .pure _) (.pure _)

/-- A token that can start an expression does not end one, so the expression takes it. -/
theorem consumes_expressionStatement (room : Nat) (ht : t.startsExpression = true) :
    Consumes (expressionStatement room) t := by
  have hend : ¬ t.endsExpression = true := by simp [not_endsExpression_of_starts ht]
  have hitems : Consumes (many (expressionItem room)) t := by
    refine consumes_many (composed_expressionItem room) (fun ts => ?_) fun ts => ?_
    · rw [expressionItem_cons, if_neg hend]
      split
      · exact ⟨_, rfl⟩
      · exact ⟨_, rfl⟩
    · rw [expressionItem_cons, if_neg hend]
      exact consumes_ite (fun _ => (consumes_group room).bind fun _ => .pure _)
        (fun _ => consumes_operand) ts
  refine consumes_here fun line => ?_
  refine ((hitems.bind fun _ => .pure _).bind fun _ => .pure _).bind fun first => ?_
  refine .bind (.many (composed_nextExpression room)) fun others => ?_
  exact .cases (.accept _) (fun _ => .pure _) (.bind (.warn (by decide)) fun _ => .pure _)

theorem consumes_block {p : Parse (Option SyntaxTree)} (hp : Composed p)
    (ht : t.isSeparator "\x7b" = true) : Consumes (block p) t := by
  refine consumes_here fun line => (consumes_accept ht).bind fun opener => ?_
  refine .bind (composed_statements hp) fun body => ?_
  exact .cases (.accept _) (fun _ => .pure _) (.bind (.warn (by decide)) fun _ => .pure _)

theorem composite (room : Nat) : (nested room).Composite :=
  nested_composite fun m _ => composed_statement m

/-- Each construct takes the token by which it was chosen. -/
theorem consumes_construct (room : Nat) (t : Token) : Consumes (construct (nested room) t) t := by
  have hother : Consumes (if t.startsExpression then expressionStatement (nested room).room
      else skipUnhandled t) t :=
    consumes_ite (consumes_expressionStatement _) fun _ => consumes_skipUnhandled t
  refine consumes_ite (fun ht => (consumes_block (composed_statement room) ht).bind fun _ =>
    .pure _) fun _ => ?_
  refine consumes_ite (fun _ => consumes_emptyStatement) fun _ => consumes_ite (fun _ => ?_)
    fun _ => hother
  refine consumes_ite (fun _ => consumes_returnStatement _) fun _ => consumes_ite (fun _ =>
    .of_advances (composed_doWhile (composite room)) (advances_doWhile room t [])) fun _ => ?_
  refine consumes_ite (fun _ => consumes_jumpStatement) fun _ => consumes_ite (fun _ =>
    consumes_labelStatement) fun _ => ?_
  refine consumes_ite (fun _ => .of_advances (composed_controlStructure (composite room))
    (advances_controlStructure room t [])) fun _ => ?_
  exact consumes_ite (consumes_declaration _) fun _ => hother

/-- A statement takes a token, whatever the token and however many levels are left. -/
theorem consumes_statement (room : Nat) (t : Token) : Consumes (statement room) t := by
  intro ts
  cases room with
  | zero =>
    rw [statement_zero]
    exact consumes_ite (fun _ => consumes_skipDirective.bind fun _ => .pure _)
      (fun _ _ => List.suffix_rfl) ts
  | succ room =>
    rw [statement_succ]
    exact consumes_ite (fun _ => consumes_skipDirective.bind fun _ => .pure _)
      (fun _ => (consumes_construct room t).bind fun _ => .pure _) ts

theorem consumes_function (ht : t.isTypeKeyword = true) : Consumes function t := by
  refine (consumes_typeSpec ht).bind fun type => ?_
  refine .cases (.expect _ _) (fun name => ?_) (.pure _)
  refine .cases (.expect _ _) (fun opener => ?_) (.pure _)
  refine .cases composed_parameters (fun params => ?_) (.pure _)
  refine .cases (.accept _) (fun _ => .pure _) ?_
  exact .cases (.expect _ _) (fun _ => .map composed_functionBody _) (.pure _)

/-- In a list of statements no token is dropped for want of progress. -/
theorem advancing_statement (room : Nat) (t : Token) (ts : List Token) :
    advancing (statement room) (t :: ts) = statement room (t :: ts) :=
  advancing_of_lt ((consumes_statement room t).length_lt ts)

end

theorem ends_topLevelItem : Ends (turn topLevelItem) := by
  refine .of_turn rfl fun t ts => .inr ?_
  obtain ⟨-, -, hlt⟩ := topLevelItem_progress t ts
  exact composed_topLevelItem.takes hlt

theorem ends_statementItem (room : Nat) : Ends (turn (statementItem (statement room))) := by
  refine .of_turn rfl fun t ts => ?_
  by_cases ht : t.isSeparator "\x7d" = true
  · exact .inl (by simp [statementItem, bind_apply, peek, andThen, ht, pure_apply])
  · refine .inr ?_
    have hitem : (statementItem (statement room) (t :: ts)).rest =
        (advancing (statement room) (t :: ts)).rest := by
      simp [statementItem, bind_apply, peek, andThen, ht, pure_apply]
    rw [hitem, advancing_statement]
    exact consumes_statement room t ts

/-- A rule that begins with a token of its own takes it, or goes on as if there were none. -/
theorem accept_cases {test : Token → Bool} {f : Option Token → Parse β}
    (hf : ∀ t, Composed (f (some t))) (t : Token) (ts : List Token) :
    (accept test >>= f) (t :: ts) = f none (t :: ts) ∨
      ((accept test >>= f) (t :: ts)).rest <:+ ts := by
  cases ht : test t with
  | true => exact .inr (by simpa [bind_apply, accept, andThen, ht] using (hf t).shrinks ts)
  | false => exact .inl (by simp [bind_apply, accept, andThen, ht])

theorem Ends.of_accept {test : Token → Bool} {f : Option Token → Parse (Turn α)}
    (hf : ∀ t, Composed (f (some t))) (hnone : f none = pure .stop) : Ends (accept test >>= f) := by
  refine .of_decreases fun ts a h => ?_
  cases ts with
  | nil =>
    have hnil : (accept test >>= f) [] = f none [] := rfl
    rw [hnil, hnone] at h
    cases h
  | cons t ts =>
    rcases accept_cases hf t ts with heq | hrest
    · rw [heq, hnone] at h
      cases h
    · exact Nat.lt_succ_of_le hrest.length_le

theorem ends_arraySize (room : Nat) : Ends (arraySize room) := by
  refine .of_accept (fun opener => ?_) rfl
  exact .bind (composed_expression room _) fun size =>
    .cases (.expect _ _) (fun _ => .pure _) (.pure _)

theorem ends_nextDeclarator (room : Nat) : Ends (nextDeclarator room) :=
  .of_accept (fun _ => .cases (composed_declarator room) (fun _ => .pure _) (.pure _)) rfl

theorem ends_nextExpression (room : Nat) : Ends (turn (nextExpression room)) := by
  refine .of_turn rfl fun t ts => ?_
  refine (accept_cases (fun comma => ?_) t ts).imp_left fun heq => ?_
  · exact .map (composed_expression room _) _
  · exact congrArg Reply.value heq

theorem ends_expressionItem (room : Nat) : Ends (turn (expressionItem room)) := by
  refine .of_turn rfl fun t ts => ?_
  rw [expressionItem_cons]
  split
  · exact .inr ((consumes_group room).bind (fun _ => .pure _) ts)
  · split
    · exact .inl rfl
    · exact .inr (consumes_operand ts)

theorem ends_groupItem (room : Nat) (closer : String) :
    Ends (turn (groupItem (group room) closer)) := by
  refine .of_turn rfl fun t ts => ?_
  have hitem : groupItem (group room) closer (t :: ts) =
      (if t.isSeparator closer then pure none
        else if t.opensGroup then group room >>= fun g => pure (some g)
        else if t.isSeparator "," then operand
        else if t.endsExpression then pure none else operand :
        Parse (Option (List SyntaxTree))) (t :: ts) := rfl
  rw [hitem]
  split
  · exact .inl rfl
  · split
    · exact .inr ((consumes_group room).bind (fun _ => .pure _) ts)
    · split
      · exact .inr (consumes_operand ts)
      · split
        · exact .inl rfl
        · exact .inr (consumes_operand ts)

/-- The loops of the grammar, by what they repeat. -/
structure LoopsEnd (room : Nat) : Prop where
  topLevel : Ends (turn topLevelItem)
  statements : Ends (turn (statementItem (statement room)))
  declarators : Ends (nextDeclarator room)
  arraySizes : Ends (arraySize room)
  expressions : Ends (turn (nextExpression room))
  items : Ends (turn (expressionItem room))
  groupItems : ∀ closer, Ends (turn (groupItem (group room) closer))

theorem loopsEnd (room : Nat) : LoopsEnd room where
  topLevel := ends_topLevelItem
  statements := ends_statementItem room
  declarators := ends_nextDeclarator room
  arraySizes := ends_arraySize room
  expressions := ends_nextExpression room
  items := ends_expressionItem room
  groupItems := ends_groupItem room

/-- A run of single tokens takes one token on each turn. -/
theorem spanFrom_taken (step : σ → Token → Option σ) (s : σ) (ts : List Token) :
    (spanFrom step s ts).value.1 ++ (spanFrom step s ts).rest = ts := by
  obtain ⟨xs, s', rest, rfl, hxs, hstop⟩ := spanFrom_spec step s ts
  rw [spanFrom_append hxs hstop]

end CAudit.Parse
