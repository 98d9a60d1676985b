import CAudit.Proofs.Shape
import CAudit.Proofs.Sequel
import CAudit.Proofs.CleanExpression
import CAudit.Proofs.Leaves

/-! What the rules give, whatever they had to recover from. A rule leaves out a construct that it
cannot complete, so that all it gives has its shape. A block or a function is given without its
closing brace only where no token is left. -/
namespace CAudit.Parse

open SyntaxTree

variable {α β σ : Type}

/-- What holds of the value that the rule gives on `ts`, together with the tokens it leaves. -/
def Yields (p : Parse α) (ts : List Token) (Q : α → List Token → Prop) : Prop :=
  Q (p ts).value (p ts).rest

section

variable {ts : List Token} {Q : β → List Token → Prop}

theorem yields_pure {b : β} (h : Q b ts) : Yields (pure b) ts Q := h

theorem yields_none {P : α → Prop} : Yields (pure none) ts fun o _ => ∀ a ∈ o, P a := by
  intro a ha
  cases ha

theorem yields_some {P : α → Prop} {a : α} (h : P a) :
    Yields (pure (some a)) ts fun o _ => ∀ a ∈ o, P a := by
  rintro _ ⟨⟩
  exact h

theorem yields_more {P : α → Prop} {a : α} (h : P a) :
    Yields (pure (Turn.more a)) ts fun turn _ => ∀ a, turn = .more a → P a := by
  rintro _ ⟨⟩
  exact h

theorem Yields.bind {p : Parse α} {f : α → Parse β} {P : α → List Token → Prop}
    (hp : Yields p ts P) (hf : ∀ a rest, P a rest → Yields (f a) rest Q) :
    Yields (p >>= f) ts Q := hf _ _ hp

theorem yields_ite {c : Prop} [Decidable c] {p q : Parse β} (hp : c → Yields p ts Q)
    (hq : ¬ c → Yields q ts Q) : Yields (if c then p else q) ts Q := by
  split
  · next h => exact hp h
  · next h => exact hq h

theorem yields_peek {f : Option Token → Parse β} (hf : Yields (f ts.head?) ts Q) :
    Yields (peek >>= f) ts Q := hf

theorem yields_here {f : Option Nat → Parse β} (hf : ∀ line, Yields (f line) ts Q) :
    Yields (here >>= f) ts Q := hf _

theorem yields_note {f : Unit → Parse β} {line : Option Nat} {kind : Diagnostic.Kind}
    {message : String} (hf : Yields (f ()) ts Q) : Yields (note line kind message >>= f) ts Q := hf

theorem yields_mention {f : Unit → Parse β} {us : List Token} (hf : Yields (f ()) ts Q) :
    Yields (mention us >>= f) ts Q := hf

theorem yields_noteLimit {f : Unit → Parse β} (hf : Yields (f ()) ts Q) :
    Yields (noteLimit >>= f) ts Q := hf

theorem yields_next {f : Option Token → Parse β}
    (hsome : ∀ t us, ts = t :: us → Yields (f (some t)) us Q)
    (hnone : ts = [] → Yields (f none) [] Q) : Yields (next >>= f) ts Q := by
  cases ts with
  | nil => exact hnone rfl
  | cons t us => exact hsome t us rfl

theorem yields_accept {test : Token → Bool} {f : Option Token → Parse β}
    (hsome : ∀ t us, ts = t :: us → test t = true → Yields (f (some t)) us Q)
    (hnone : ts.head?.any test = false → Yields (f none) ts Q) :
    Yields (accept test >>= f) ts Q := by
  cases ts with
  | nil => exact hnone rfl
  | cons t us =>
    cases h : test t with
    | true =>
      have hf := hsome t us rfl h
      simpa [Yields, bind_apply, accept, h, andThen] using hf
    | false =>
      have hf := hnone h
      simpa [Yields, bind_apply, accept, h, andThen] using hf

theorem yields_expect {test : Token → Bool} {message : String} {f : Option Token → Parse β}
    (hsome : ∀ t us, ts = t :: us → test t = true → Yields (f (some t)) us Q)
    (hnone : Yields (f none) ts Q) : Yields (expect test message >>= f) ts Q := by
  have hexpect : Yields (expect test message) ts fun o rest => Yields (f o) rest Q :=
    yields_accept hsome fun _ => yields_here fun _ => yields_note (yields_pure hnone)
  exact hexpect

theorem yields_spanFrom {step : σ → Token → Option σ} {s : σ} {f : List Token × σ → Parse β}
    (hf : ∀ xs s' rest, ts = xs ++ rest → xs.foldlM step s = some s' → StopsAt step s' rest →
      Yields (f (xs, s')) rest Q) : Yields (spanFrom step s >>= f) ts Q := by
  obtain ⟨xs, s', rest, rfl, hxs, hstop⟩ := spanFrom_spec step s ts
  have hrun := hf xs s' rest rfl hxs hstop
  simpa [Yields, bind_apply, spanFrom_append hxs hstop, andThen] using hrun

theorem yields_spanWhile {test : Token → Bool} {f : List Token → Parse β}
    (hf : ∀ xs rest, (∀ t ∈ xs, test t = true) → Yields (f xs) rest Q) :
    Yields (spanWhile test >>= f) ts Q := by
  have hspan : Yields (spanWhile test) ts fun xs rest => Yields (f xs) rest Q :=
    yields_spanFrom fun xs _ rest _ hxs _ => yields_pure (hf xs rest (foldlM_while.1 hxs))
  exact hspan

/-- A rule that is made to advance drops at most one more token. -/
theorem yields_advancing {p : Parse β} (hp : Yields p ts Q)
    (hdrop : ∀ b t us, Q b (t :: us) → Q b us) : Yields (advancing p) ts Q := by
  have hp : Q (p ts).value (p ts).rest := hp
  show Q (advancing p ts).value (advancing p ts).rest
  unfold advancing
  by_cases hlt : (p ts).rest.length < ts.length
  · simp only [hlt, if_true]
    exact hp
  · simp only [hlt, if_false]
    cases hrest : (p ts).rest with
    | nil =>
      rw [hrest] at hp
      exact hp
    | cons t us =>
      rw [hrest] at hp
      exact hdrop _ t us hp

end

/-! ### Repeated rules -/

/-- What the items of a repeated rule come to, from the last one back to the first. -/
theorem yields_loop {p : Parse (Turn α)} {I : List Token → List α → List Token → Prop}
    (hstop : ∀ ts, (p ts).value = .stop → I ts [] (p ts).rest)
    (hmore : ∀ ts a as rest, (p ts).value = .more a → (p ts).rest.length < ts.length →
      I (p ts).rest as rest → I ts (a :: as) rest)
    (hlast : ∀ ts a, (p ts).value = .more a → ¬ (p ts).rest.length < ts.length →
      I ts [a] (p ts).rest) (ts : List Token) :
    Yields (loop p) ts fun o rest => ∀ as ∈ o, I ts as rest := by
  -- By the number of tokens: a turn that is followed by another takes one.
  induction hlen : ts.length using Nat.strongRecOn generalizing ts with
  | _ n ih =>
    unfold Yields
    rw [loop]
    cases hv : (p ts).value with
    | stop =>
      intro as has
      obtain rfl : [] = as := Option.some.inj has
      exact hstop ts hv
    | abandon =>
      intro as has
      cases has
    | more a =>
      by_cases hlt : (p ts).rest.length < ts.length
      · simp only [hlt, if_true]
        intro as has
        obtain ⟨others, hothers, rfl⟩ := Option.map_eq_some_iff.1 has
        have hrest := ih _ (hlen ▸ hlt) (p ts).rest rfl
        exact hmore ts a others _ hv hlt (hrest others hothers)
      · simp only [hlt, if_false]
        intro as has
        obtain rfl : [a] = as := Option.some.inj has
        exact hlast ts a hv hlt

theorem yields_loop_forall {p : Parse (Turn α)} {P : α → Prop}
    (hp : ∀ ts, Yields p ts fun turn _ => ∀ a, turn = .more a → P a) (ts : List Token) :
    Yields (loop p) ts fun o _ => ∀ as ∈ o, ∀ a ∈ as, P a := by
  apply yields_loop (I := fun _ as _ => ∀ a ∈ as, P a)
  · exact fun _ _ => nofun
  · intro ts a as rest hv _ has
    exact List.forall_mem_cons.2 ⟨hp ts a hv, has⟩
  · intro ts a hv _
    exact List.forall_mem_singleton.2 (hp ts a hv)

theorem yields_many {q : Parse (Option α)} {I : List Token → List α → List Token → Prop}
    (hstop : ∀ ts, (q ts).value = none → I ts [] (q ts).rest)
    (hmore : ∀ ts a as rest, (q ts).value = some a → (q ts).rest.length < ts.length →
      I (q ts).rest as rest → I ts (a :: as) rest)
    (hlast : ∀ ts a, (q ts).value = some a → ¬ (q ts).rest.length < ts.length →
      I ts [a] (q ts).rest) (ts : List Token) : Yields (many q) ts (I ts) := by
  have hvalue {us : List Token} {a : α} (h : (turn q us).value = .more a) :
      (q us).value = some a := by
    rw [turn_apply] at h
    cases hq : (q us).value <;> simp_all
  have hloop : Yields (loop (turn q)) ts fun o rest => ∀ as ∈ o, I ts as rest := by
    apply yields_loop
    · intro us h
      rw [turn_apply] at h ⊢
      apply hstop us
      cases hq : (q us).value <;> simp_all
    · intro us a as rest h hlt hrest
      have hv := hvalue h
      rw [turn_apply] at hlt hrest
      exact hmore us a as rest hv hlt hrest
    · intro us a h hlt
      have hv := hvalue h
      rw [turn_apply] at hlt ⊢
      exact hlast us a hv hlt
  obtain ⟨as, has⟩ := loop_turn_value q ts
  unfold Yields at hloop ⊢
  rw [many_apply, has]
  exact hloop as has

theorem yields_many_forall {q : Parse (Option α)} {P : α → Prop}
    (hq : ∀ ts, Yields q ts fun o _ => ∀ a ∈ o, P a) (ts : List Token) :
    Yields (many q) ts fun as _ => ∀ a ∈ as, P a := by
  apply yields_many (I := fun _ as _ => ∀ a ∈ as, P a)
  · exact fun _ _ => nofun
  · intro us a as rest hv _ has
    exact List.forall_mem_cons.2 ⟨hq us a hv, has⟩
  · intro us a hv _
    exact List.forall_mem_singleton.2 (hq us a hv)

/-- A rule that reads a row of constructs in turn and stops at certain tokens. -/
structure ReadsRow (q : Parse (Option (List SyntaxTree))) (cs : List Construct) (h : Nat)
    (Stop : List Token → Prop) : Prop where
  item : ∀ ts xs, (q ts).value = some xs → Row h (q ts).rest.isEmpty xs ∧
    (∀ b ∈ xs, b.toParseTree.IsOf cs) ∧ (q ts).rest.length < ts.length
  stop : ∀ ts, (q ts).value = none → Stop (q ts).rest
  rest_nil : (q []).rest = []

/-- A tree can only be cut off where no token is left, so no further tree follows it. -/
theorem ReadsRow.many {q : Parse (Option (List SyntaxTree))} {cs : List Construct} {h : Nat}
    {Stop : List Token → Prop} (hq : ReadsRow q cs h Stop) (ts : List Token) :
    Yields (many q) ts fun lists rest => Row h rest.isEmpty lists.flatten ∧
      (∀ b ∈ lists.flatten, b.toParseTree.IsOf cs) ∧ Stop rest := by
  have hrow : Yields (Parse.many q) ts fun lists rest => (Row h rest.isEmpty lists.flatten ∧
      (∀ b ∈ lists.flatten, b.toParseTree.IsOf cs) ∧ Stop rest) ∧
        (ts = [] → lists = [] ∧ rest = []) := by
    apply yields_many (I := fun ts lists rest => (Row h rest.isEmpty lists.flatten ∧
      (∀ b ∈ lists.flatten, b.toParseTree.IsOf cs) ∧ Stop rest) ∧
        (ts = [] → lists = [] ∧ rest = []))
    · intro us hv
      refine ⟨⟨pieces_nil.row, nofun, hq.stop us hv⟩, ?_⟩
      rintro rfl
      exact ⟨rfl, hq.rest_nil⟩
    · intro us xs lists rest hv hlt hrest
      obtain ⟨⟨hlists, hof, hstop⟩, hend⟩ := hrest
      obtain ⟨hxs, hxof, -⟩ := hq.item us xs hv
      refine ⟨⟨?_, ?_, hstop⟩, ?_⟩
      · rw [List.flatten_cons]
        -- With tokens left the first trees are whole; with none left they are the last.
        cases hr : (q us).rest with
        | nil =>
          obtain ⟨rfl, rfl⟩ := hend hr
          rw [List.flatten_nil, List.append_nil]
          rwa [hr] at hxs
        | cons t vs =>
          rw [hr] at hxs
          exact hxs.pieces.append_row hlists
      · simpa [or_imp, forall_and] using ⟨hxof, by simpa using hof⟩
      · rintro rfl
        simp at hlt
    · intro us xs hv hlt
      exact absurd (hq.item us xs hv).2.2 hlt
  exact hrow.1

/-! ### Expressions -/

section

variable {ts : List Token} {h : Nat}

theorem yields_operand : Yields operand ts fun o _ => ∀ xs ∈ o, Pieces (h + 1) xs := by
  apply yields_next
  · intro t us _
    apply yields_mention
    exact yields_some (by simp)
  · exact fun _ => yields_none

theorem yields_groupItem {g : Parse (List SyntaxTree)} {closer : String}
    (hg : ∀ us, Yields g us fun xs _ => Pieces (h + 1) xs) :
    Yields (groupItem g closer) ts fun o _ => ∀ xs ∈ o, Pieces (h + 1) xs := by
  apply yields_peek
  cases ts with
  | nil => exact yields_none
  | cons t us =>
    refine yields_ite (fun _ => yields_none) fun _ => ?_
    apply yields_ite (fun _ => ?_) fun _ => ?_
    · apply (hg _).bind
      intro xs rest hxs
      exact yields_some hxs
    · apply yields_ite (fun _ => yields_operand) fun _ => ?_
      exact yields_ite (fun _ => yields_none) fun _ => yields_operand

theorem yields_group (n : Nat) (ts : List Token) :
    Yields (group n) ts fun xs _ => Pieces (n + 1) xs := by
  induction n generalizing ts with
  | zero =>
    apply yields_next
    · intro opener us _
      apply yields_noteLimit
      exact yields_pure (by simp)
    · exact fun _ => yields_pure pieces_nil
  | succ n ih =>
    apply yields_next
    · intro opener us _
      apply (yields_many_forall (fun vs => yields_groupItem ih) us).bind
      intro inner rest hinner
      have hnode : Fits (n + 2) false (.node .expression inner.flatten) :=
        (pieces_flatten hinner).fits trivial (by decide)
      apply yields_accept
      · intro closer vs _ _
        exact yields_pure (by simp [hnode])
      · intro _
        apply yields_note
        exact yields_pure (by simp [hnode])
    · exact fun _ => yields_pure pieces_nil

theorem yields_expressionItem (n : Nat) :
    Yields (expressionItem n) ts fun o _ => ∀ xs ∈ o, Pieces (n + 1) xs := by
  apply yields_peek
  cases ts with
  | nil => exact yields_none
  | cons t us =>
    apply yields_ite (fun _ => ?_) fun _ => ?_
    · apply (yields_group n _).bind
      intro xs rest hxs
      exact yields_some hxs
    · exact yields_ite (fun _ => yields_none) fun _ => yields_operand

theorem yields_expressionItems (n : Nat) :
    Yields (expressionItems n) ts fun xs _ => Pieces (n + 1) xs := by
  apply (yields_many_forall (fun _ => yields_expressionItem n) ts).bind
  intro items rest hitems
  exact yields_pure (pieces_flatten hitems)

/-- The constructs over the items of an expression. -/
theorem yields_expression (n : Nat) {c : Construct} (hc : c = .expression ∨ c = .arraySize) :
    Yields (expression n c) ts fun b _ => Fits (n + 2) false b := by
  apply (yields_expressionItems n).bind
  intro items rest hitems
  apply yields_pure
  rcases hc with rfl | rfl <;> exact hitems.fits trivial (by decide)

/-! ### Declarations -/

theorem yields_arraySize (n : Nat) :
    Yields (arraySize n) ts fun turn _ => ∀ xs, turn = .more xs → Pieces (n + 2) xs := by
  apply yields_accept
  · intro opener us _ _
    apply (yields_expression n (.inr rfl)).bind
    intro size rest hsize
    apply yields_expect
    · intro closer vs _ _
      exact yields_more (by simp [hsize])
    · exact yields_pure nofun
  · exact fun _ => yields_pure nofun

theorem yields_initializerList : Yields initializerList ts fun b _ => Fits (h + 2) false b := by
  apply yields_here
  intro line
  apply yields_spanFrom
  intro run depth rest _ _ _
  have hnode : Fits (h + 2) false (.node .initializerList (leaves run)) :=
    (pieces_leaves run).fits trivial (by decide)
  apply yields_mention
  apply yields_ite
  · intro _
    exact yields_note (yields_pure hnode)
  · exact fun _ => yields_pure hnode

theorem yields_initializer (n : Nat) :
    Yields (initializer n) ts fun xs _ => Pieces (n + 2) xs := by
  apply yields_accept
  · intro assign us _ _
    apply yields_peek
    apply yields_ite
    · intro _
      apply yields_initializerList.bind
      intro list rest hlist
      exact yields_pure (by simpa using hlist)
    · intro _
      apply (yields_expression n (.inl rfl)).bind
      intro value rest hvalue
      exact yields_pure (by simpa using hvalue)
  · exact fun _ => yields_pure pieces_nil

theorem yields_declarator (n : Nat) :
    Yields (declarator n) ts fun o _ => ∀ xs ∈ o, Pieces (n + 2) xs := by
  apply yields_spanWhile
  intro pointer rest _
  apply yields_expect
  · intro name us _ _
    apply (yields_loop_forall (fun _ => yields_arraySize n) us).bind
    intro sizes rest hsizes
    cases sizes with
    | none => exact yields_none
    | some sizes =>
      apply (yields_initializer n).bind
      intro value rest hvalue
      exact yields_some (by simp [leaves, hvalue, pieces_flatten (hsizes sizes rfl)])
  · exact yields_none

theorem yields_nextDeclarator (n : Nat) :
    Yields (nextDeclarator n) ts fun turn _ => ∀ xs, turn = .more xs → Pieces (n + 2) xs := by
  apply yields_accept
  · intro comma us _ _
    apply (yields_declarator n).bind
    intro o rest ho
    cases o with
    | none => exact yields_pure nofun
    | some xs =>
      exact yields_more (by simp [ho xs rfl])
  · exact fun _ => yields_pure nofun

end

/-! ### Constructs of a statement -/

/-- What a rule gives, if it gives a tree: one of the constructs `cs`, cut off only where no token
is left. -/
def Gives (cs : List Construct) (h : Nat) (o : Option SyntaxTree) (rest : List Token) : Prop :=
  ∀ b ∈ o, b.toParseTree.IsOf cs ∧ Fits h rest.isEmpty b

section

variable {ts rest : List Token} {h : Nat} {cs : List Construct}

theorem gives_none : Gives cs h none rest := nofun

theorem gives_some {c : Construct} {xs : List SyntaxTree} (hc : c ∈ cs)
    (hb : Fits h rest.isEmpty (.node c xs)) : Gives cs h (some (.node c xs)) rest := by
  rintro _ ⟨⟩
  exact ⟨isOf_node hc xs, hb⟩

theorem Gives.mono {k : Nat} {o : Option SyntaxTree} (ho : Gives cs h o rest) (hk : h ≤ k) :
    Gives cs k o rest := fun b hb => ⟨(ho b hb).1, (ho b hb).2.mono hk id⟩

theorem typeWords_kinds {waits last : Bool} {words : List Token}
    (hw : Grammar.TypeWords waits words last) :
    ∀ t ∈ words, t.isTypeKeyword = true ∨ t.isIdentifier = true := by
  induction hw with
  | nil => nofun
  | keyword hk _ ih => exact List.forall_mem_cons.2 ⟨.inl hk, ih⟩
  | tag hi _ ih => exact List.forall_mem_cons.2 ⟨.inr hi, ih⟩

/-- The words of a type; there is one at least where a type keyword stands. -/
theorem yields_typeSpec :
    Yields typeSpec ts fun type _ => (∀ t ∈ type, t.isTypeKeyword = true ∨ t.isIdentifier = true ∨
      t.isOperator "*" = true) ∧ (ts.head?.any (·.isTypeKeyword) = true → type ≠ []) := by
  apply yields_spanFrom
  intro words last rest hts hwords hstop
  apply yields_spanWhile
  intro stars rest' hstars
  apply yields_pure
  constructor
  · intro t ht
    rcases List.mem_append.1 ht with ht | ht
    · rcases typeWords_kinds (foldlM_typeStep.1 hwords) t ht with hk | hi
      · exact .inl hk
      · exact .inr (.inl hi)
    · exact .inr (.inr (hstars t ht))
  · intro hfirst hnone
    obtain ⟨rfl, -⟩ := List.append_eq_nil_iff.1 hnone
    obtain rfl : false = last := by simpa using hwords
    rw [List.nil_append] at hts
    cases ts with
    | nil => simp at hfirst
    | cons t us =>
      have hk : t.isTypeKeyword = true := by simpa using hfirst
      simp [← hts, StopsAt, typeStep, hk] at hstop

theorem yields_declaration (n : Nat) :
    Yields (declaration n) ts (Gives Construct.ofStatement (n + 3)) := by
  apply yields_typeSpec.bind
  intro type rest _
  apply (yields_declarator n).bind
  intro first rest hfirst
  cases first with
  | none => exact yields_pure gives_none
  | some first =>
    apply (yields_loop_forall (fun _ => yields_nextDeclarator n) rest).bind
    intro others rest hothers
    cases others with
    | none => exact yields_pure gives_none
    | some others =>
      apply yields_expect
      · intro semicolon us _ hs
        have hparts : Pieces (n + 2) (leaves type ++ first ++ others.flatten) := by
          simp [leaves, hfirst first rfl, pieces_flatten (hothers others rfl)]
        exact yields_pure (gives_some (by decide) (hparts.fits_terminated (by decide) hs))
      · exact yields_pure gives_none

theorem yields_emptyStatement :
    Yields emptyStatement ts (Gives Construct.ofStatement (h + 2)) := by
  apply yields_next
  · intro t us _
    have hparts : Pieces (h + 1) [leaf t] := by simp
    exact yields_pure (gives_some (by decide) (hparts.fits trivial (by decide)))
  · exact fun _ => yields_pure gives_none

theorem yields_returnStatement (n : Nat) :
    Yields (returnStatement n) ts (Gives Construct.ofStatement (n + 3)) := by
  apply yields_next
  · intro keyword us _
    apply (yields_expressionItems n).bind
    intro items rest hitems
    apply yields_expect
    · intro semicolon vs _ hs
      have hvalue : Fits (n + 2) false (.node .expression items) :=
        hitems.fits trivial (by decide)
      have hparts : Pieces (n + 2) (.leaf keyword ::
          if items.isEmpty then [] else [.node .expression items]) := by
        split <;> simp [hvalue]
      exact yields_pure (gives_some (by decide) (hparts.fits_terminated (by decide) hs))
    · exact yields_pure gives_none
  · exact fun _ => yields_pure gives_none

theorem yields_jumpTarget (keyword : Token) :
    Yields (jumpTarget keyword) ts fun o _ => ∀ xs ∈ o, Pieces (h + 1) xs := by
  apply yields_ite
  · intro _
    apply yields_expect
    · intro label us _ _
      exact yields_some (by simp)
    · exact yields_none
  · exact fun _ => yields_some pieces_nil

theorem yields_jumpStatement :
    Yields jumpStatement ts (Gives Construct.ofStatement (h + 2)) := by
  apply yields_next
  · intro keyword us _
    apply (yields_jumpTarget (h := h) keyword).bind
    intro target rest htarget
    cases target with
    | none => exact yields_pure gives_none
    | some target =>
      apply yields_expect
      · intro semicolon vs _ hs
        have hparts : Pieces (h + 1) (.leaf keyword :: target) := by simp [htarget target rfl]
        exact yields_pure (gives_some (by decide) (hparts.fits_terminated (by decide) hs))
      · exact yields_pure gives_none
  · exact fun _ => yields_pure gives_none

theorem yields_labelStatement :
    Yields labelStatement ts (Gives Construct.ofStatement (h + 2)) := by
  apply yields_next
  · intro keyword us _
    apply yields_spanWhile
    intro run rest _
    apply yields_mention
    apply yields_accept
    · intro colon vs _ _
      have hparts : Pieces (h + 1) (.leaf keyword :: leaves run ++ [.leaf colon]) := by
        simp [leaves]
      exact yields_pure (gives_some (by decide) (hparts.fits trivial (by decide)))
    · intro _
      apply yields_here
      intro line
      have hparts : Pieces (h + 1) (.leaf keyword :: leaves run) := by simp [leaves]
      exact yields_note
        (yields_pure (gives_some (by decide) (hparts.fits trivial (by decide))))
  · exact fun _ => yields_pure gives_none

theorem yields_nextExpression (n : Nat) :
    Yields (nextExpression n) ts fun o _ => ∀ xs ∈ o, Pieces (n + 2) xs := by
  apply yields_accept
  · intro comma us _ _
    apply (yields_expression n (.inl rfl)).bind
    intro b rest hb
    exact yields_some (by simpa using hb)
  · exact fun _ => yields_none

theorem yields_expressionStatement (n : Nat) :
    Yields (expressionStatement n) ts (Gives Construct.ofStatement (n + 3)) := by
  apply yields_here
  intro line
  apply (yields_expression n (.inl rfl)).bind
  intro first rest hfirst
  apply (yields_many_forall (fun _ => yields_nextExpression n) rest).bind
  intro others rest hothers
  apply yields_accept
  · intro semicolon us _ hs
    have hparts : Pieces (n + 2) (first :: others.flatten) := by
      simp [hfirst, pieces_flatten hothers]
    exact yields_pure (gives_some (by decide) (hparts.fits_terminated (by decide) hs))
  · intro _
    exact yields_note (yields_pure gives_none)

theorem yields_condition (keyword : Token) :
    Yields (condition keyword) ts fun xs _ => Pieces (h + 2) xs := by
  apply yields_spanFrom
  intro run depth rest _ _ _
  have hnode : Fits (h + 2) false (.node .condition (leaves run)) :=
    (pieces_leaves run).fits trivial (by decide)
  apply yields_mention
  apply yields_accept
  · intro closer us _ _
    exact yields_pure (by simpa using hnode)
  · intro _
    exact yields_note (yields_pure (by simpa using hnode))

/-! ### Nested statements -/

/-- A rule for statements, which leaves the end of what it was given. -/
structure ReadsStatement (p : Parse (Option SyntaxTree)) (h : Nat) : Prop where
  gives : ∀ ts, Yields p ts (Gives [.statement] h)
  suffix : ∀ t ts, (p (t :: ts)).rest <:+ t :: ts

/-- The tokens where a list of statements stops. -/
def AtBrace (rest : List Token) : Prop := ∀ t ∈ rest.head?, t.isSeparator "\x7d" = true

theorem statementItem_readsRow {p : Parse (Option SyntaxTree)} (hp : ReadsStatement p h) :
    ReadsRow (statementItem p) [.statement] h AtBrace := by
  have hnil : statementItem p [] = ⟨none, [], [], []⟩ := rfl
  have hcons (t : Token) (ts : List Token) : statementItem p (t :: ts) =
      (if t.isSeparator "\x7d" then pure none
        else do return some (← advancing p).toList : Parse (Option (List SyntaxTree)))
        (t :: ts) := rfl
  refine ⟨fun ts xs hv => ?_, fun ts hv => ?_, rfl⟩
  · cases ts with
    | nil => simp [hnil] at hv
    | cons t us =>
      rw [hcons] at hv ⊢
      by_cases ht : t.isSeparator "\x7d" = true
      · simp [ht, pure_apply] at hv
      · simp only [ht] at hv ⊢
        have hstep : Yields (advancing p) (t :: us) (Gives [.statement] h) := by
          apply yields_advancing (hp.gives _)
          intro o u vs ho b hb
          exact ⟨(ho b hb).1, (ho b hb).2.mono (Nat.le_refl h) nofun⟩
        obtain rfl : (advancing p (t :: us)).value.toList = xs := Option.some.inj hv
        refine ⟨?_, fun b hb => (hstep b (Option.mem_toList.1 hb)).1,
          advancing_length_lt (hp.suffix t us)⟩
        exact ⟨[], _, rfl, pieces_nil, fun b hb => (hstep b hb).2⟩
  · cases ts with
    | nil => exact nofun
    | cons t us =>
      rw [hcons] at hv ⊢
      by_cases ht : t.isSeparator "\x7d" = true
      · simp only [ht, if_true, pure_apply]
        rintro _ ⟨⟩
        exact ht
      · simp [ht, bind_apply, andThen, pure_apply] at hv

theorem yields_statements {p : Parse (Option SyntaxTree)} (hp : ReadsStatement p h)
    (ts : List Token) :
    Yields (statements p) ts fun body rest => Row h rest.isEmpty body ∧
      (∀ b ∈ body, b.toParseTree.IsOf [.statement]) ∧ AtBrace rest := by
  apply ((statementItem_readsRow hp).many ts).bind
  intro lists rest hlists
  exact yields_pure hlists

/-- A list of statements that is not followed by a brace ends with the input. -/
theorem AtBrace.eq_nil (hrest : AtBrace rest)
    (hnone : rest.head?.any (·.isSeparator "\x7d") = false) : rest = [] := by
  cases rest with
  | nil => rfl
  | cons t us =>
    have ht := hrest t rfl
    simp [ht] at hnone

theorem yields_block {p : Parse (Option SyntaxTree)} (hp : ReadsStatement p (h + 1)) {t : Token}
    (ht : t.isSeparator "\x7b" = true) :
    Yields (block p) (t :: ts) fun b rest =>
      b.toParseTree.IsOf [.block] ∧ Fits (h + 2) rest.isEmpty b := by
  have hshape (body final : List SyntaxTree)
      (hbody : ∀ b ∈ body, b.toParseTree.IsOf [.statement])
      (hfinal : ParseTree.AtMost "\x7d" (final.map toParseTree)) :
      Construct.block.Shape ((.leaf t :: body ++ final).map toParseTree) := by
    refine ⟨body.map toParseTree, final.map toParseTree, ?_, hfinal, ?_⟩
    · simpa using hbody
    · simp [← toParseTree_separator ht]
  apply yields_here
  intro line
  apply yields_accept
  · intro opener us hts _
    obtain ⟨rfl, rfl⟩ := List.cons.inj hts
    apply (yields_statements hp ts).bind
    rintro body rest ⟨hrow, hbody, hstop⟩
    apply yields_accept
    · rintro closer vs rfl hc
      have hpieces : Pieces (h + 1) (.leaf t :: body ++ [.leaf closer]) := by simp [hrow.pieces]
      have hlast : ((leaf t :: body ++ [leaf closer]).map toParseTree).getLast? =
          some (.separator "\x7d") := by
        rw [List.map_append, List.map_singleton, toParseTree_separator hc, List.getLast?_concat]
      have hclosed := hshape body [.leaf closer] hbody
        (.inr (by simp [← toParseTree_separator hc]))
      refine yields_pure ⟨isOf_node (by decide) _, ?_⟩
      exact hpieces.row.fits hclosed fun _ => .inl hlast
    · intro hnone
      obtain rfl := hstop.eq_nil hnone
      have hall : Row (h + 1) true (.leaf t :: body) := hrow.cons (.leaf t)
      apply yields_note
      refine yields_pure ⟨isOf_node (by decide) _, ?_⟩
      have hopen := hshape body [] hbody (.inl rfl)
      rw [List.append_nil] at hopen
      exact hall.fits hopen fun _ => .inr rfl
  · intro hnone
    simp [ht] at hnone

/-- The rules one level further in: their trees have at most the height `h`. -/
structure Nested.Shapely (inner : Nested) (h : Nat) : Prop where
  statement : ReadsStatement inner.statement h
  block : ∀ p ∈ inner.block, ∀ t ts, t.isSeparator "\x7b" = true →
    Yields p (t :: ts) fun b rest => Fits h rest.isEmpty b
  room : inner.room + 2 ≤ h

theorem yields_body {inner : Nested} (hi : inner.Shapely h) (keyword : String) :
    Yields (body inner keyword) ts fun xs rest => Row h rest.isEmpty xs := by
  apply yields_peek
  cases ts with
  | nil => exact yields_note (yields_pure pieces_nil.row)
  | cons t us =>
    apply yields_ite
    · intro ht
      cases hb : inner.block with
      | none => exact yields_noteLimit (yields_pure pieces_nil.row)
      | some p =>
        apply (hi.block p hb t us ht).bind
        intro b rest hfits
        exact yields_pure (.single hfits)
    · intro _
      apply (hi.statement.gives _).bind
      intro o rest ho
      exact yields_pure ⟨[], o, rfl, pieces_nil, fun b hb => (ho b hb).2⟩

/-- What stands in front of an `else` is not cut off. -/
theorem yields_elseBranch {inner : Nested} (hi : inner.Shapely h) (keyword : Token)
    {main : List SyntaxTree} (hmain : Row h ts.isEmpty main) (hh : 0 < h) :
    Yields (elseBranch inner keyword) ts fun other rest => Row h rest.isEmpty (main ++ other) := by
  obtain ⟨k, rfl⟩ : ∃ k, h = k + 1 := ⟨h - 1, by omega⟩
  have hstay : Row (k + 1) ts.isEmpty (main ++ []) := by rwa [List.append_nil]
  apply yields_ite
  · intro _
    apply yields_accept
    · rintro t us rfl _
      apply (yields_body hi "else").bind
      intro other rest hother
      exact yields_pure (hmain.pieces.append_row (hother.cons (.leaf t)))
    · exact fun _ => yields_pure hstay
  · exact fun _ => yields_pure hstay

theorem yields_controlStructure {inner : Nested} (hi : inner.Shapely (h + 2)) :
    Yields (controlStructure inner) ts (Gives Construct.ofStatement (h + 3)) := by
  apply yields_next
  · intro keyword us _
    apply yields_expect
    · intro opener vs _ _
      apply (yields_condition (h := h) keyword).bind
      intro cond rest hcond
      apply (yields_body hi _).bind
      intro main rest hmain
      apply (yields_elseBranch hi keyword hmain (by omega)).bind
      intro other rest hother
      have hfront : Pieces (h + 2) (.leaf keyword :: .leaf opener :: cond) := by simp [hcond]
      have hall : Row (h + 2) rest.isEmpty
          (.leaf keyword :: .leaf opener :: cond ++ main ++ other) := by
        rw [List.append_assoc]
        exact hfront.append_row hother
      exact yields_pure (gives_some (by decide) hall.fits_control)
    · exact yields_pure gives_none
  · exact fun _ => yields_pure gives_none

theorem yields_doWhile {inner : Nested} (hi : inner.Shapely (h + 2)) :
    Yields (doWhile inner) ts (Gives Construct.ofStatement (h + 3)) := by
  apply yields_next
  · intro keyword us _
    apply (yields_body hi _).bind
    intro main rest hmain
    apply yields_accept
    · rintro while_ vs rfl _
      apply yields_expect
      · intro opener rest _ _
        apply (yields_condition (h := h) while_).bind
        intro cond rest hcond
        apply yields_expect
        · intro semicolon rest _ _
          have hall : Pieces (h + 2) (.leaf keyword :: main ++ .leaf while_ :: .leaf opener ::
              cond ++ [.leaf semicolon]) := by simp [hmain.pieces, hcond]
          exact yields_pure (gives_some (by decide) (hall.fits trivial (by decide)))
        · exact yields_pure gives_none
      · exact yields_pure gives_none
    · intro _
      apply yields_here
      intro line
      have hall : Row (h + 2) rest.isEmpty (.leaf keyword :: main) := hmain.cons (.leaf keyword)
      exact yields_note (yields_pure (gives_some (by decide) hall.fits_control))
  · exact fun _ => yields_pure gives_none

theorem yields_skipUnhandled (t : Token) : Yields (skipUnhandled t) ts (Gives cs h) :=
  yields_note (yields_next (fun _ _ _ => yields_pure gives_none) fun _ => yields_pure gives_none)

theorem Yields.imp {p : Parse α} {P Q : α → List Token → Prop} (hp : Yields p ts P)
    (h : ∀ a rest, P a rest → Q a rest) : Yields p ts Q := h _ _ hp

theorem yields_construct {inner : Nested} (hi : inner.Shapely (h + 2)) (t : Token) :
    Yields (construct inner t) (t :: ts) (Gives Construct.ofStatement (h + 3)) := by
  have hroom : inner.room + 3 ≤ h + 3 := Nat.succ_le_succ hi.room
  have hother : Yields (if t.startsExpression then expressionStatement inner.room
      else skipUnhandled t) (t :: ts) (Gives Construct.ofStatement (h + 3)) := by
    apply yields_ite (fun _ => ?_) fun _ => yields_skipUnhandled t
    exact (yields_expressionStatement _).imp fun _ _ ho => ho.mono hroom
  apply yields_ite
  · intro ht
    apply (yields_block hi.statement ht).bind
    rintro b rest ⟨hof, hb⟩
    apply yields_pure
    rintro _ ⟨⟩
    obtain ⟨c, hc, hnode⟩ := hof
    exact ⟨⟨c, List.mem_singleton.1 hc ▸ by decide, hnode⟩, hb⟩
  · intro _
    apply yields_ite (fun _ => yields_emptyStatement) fun _ => ?_
    apply yields_ite (fun _ => ?_) fun _ => hother
    apply yields_ite (fun _ => ?_) fun _ => ?_
    · exact (yields_returnStatement _).imp fun _ _ ho => ho.mono hroom
    · apply yields_ite (fun _ => yields_doWhile hi) fun _ => ?_
      apply yields_ite (fun _ => yields_jumpStatement) fun _ => ?_
      apply yields_ite (fun _ => yields_labelStatement) fun _ => ?_
      apply yields_ite (fun _ => yields_controlStructure hi) fun _ => ?_
      apply yields_ite (fun _ => ?_) fun _ => hother
      exact (yields_declaration _).imp fun _ _ ho => ho.mono hroom

theorem nested_shapely {n : Nat} (hs : ∀ m ≤ n, ReadsStatement (statement m) (2 * m + 2)) :
    (nested n).Shapely (2 * n + 2) where
  statement := hs n (Nat.le_refl n)
  block p hp t ts ht := by
    cases n with
    | zero => simp [nested] at hp
    | succ m =>
      obtain rfl : block (statement m) = p := by simpa [nested] using hp
      apply (yields_block (hs m (Nat.le_succ m)) ht).imp
      rintro b rest ⟨-, hb⟩
      exact hb.mono (by omega) id
  room := by
    show n + 2 ≤ 2 * n + 2
    omega

/-- Each level adds a statement and a construct to the height. -/
theorem reads_statement (n : Nat) : ReadsStatement (statement n) (2 * n + 2) := by
  induction n using Nat.strongRecOn with
  | _ n ih =>
    refine ⟨fun ts => ?_, fun t ts => (tracks_statement n _ t ts).suffix⟩
    cases ts with
    | nil =>
      unfold Yields
      rw [statement_nil]
      exact gives_none
    | cons t ts =>
      cases n with
      | zero =>
        unfold Yields
        rw [statement_zero]
        split <;> exact gives_none
      | succ m =>
        have hi := nested_shapely fun k hk => ih k (Nat.lt_succ_of_le hk)
        unfold Yields
        rw [statement_succ]
        split
        · exact gives_none
        · refine (yields_construct hi t).bind (Q := Gives [.statement] _) ?_
          intro o rest ho
          apply yields_pure
          cases o with
          | none => exact gives_none
          | some b =>
            obtain ⟨hof, hb⟩ := ho b rfl
            have hnode : Fits (2 * m + 4) rest.isEmpty (.node .statement [b]) :=
              (Row.single hb).fits ⟨_, hof, rfl⟩ fun hc => absurd hc (by decide)
            exact gives_some (by decide) hnode

/-! ### Whole sources -/

/-- The parameters of a function, without their closing parenthesis only where a brace follows. -/
theorem yields_parameters :
    Yields parameters ts fun o rest => ∀ params ∈ o, ∃ run close, params =
      .node .parameters (leaves run) :: leaves close ∧
        ParseTree.AtMost ")" ((leaves close).map toParseTree) ∧
          (close = [] → rest.head?.any (·.isSeparator "\x7b") = true) := by
  apply yields_spanFrom
  intro run depth rest _ _ hstop
  apply yields_accept
  · intro closer us _ hc
    apply yields_pure
    rintro _ ⟨⟩
    exact ⟨run, [closer], rfl, .inr (by simp [leaves, ← toParseTree_separator hc]), by simp⟩
  · intro hnone
    apply yields_peek
    cases rest with
    | nil => exact yields_note (yields_pure (by simp))
    | cons t us =>
      apply yields_note
      apply yields_pure
      rintro _ ⟨⟩
      refine ⟨run, [], rfl, .inl rfl, fun _ => ?_⟩
      -- The run stops at a parenthesis that closes it or at a brace.
      have hstop : parameterStep depth t = none := hstop
      have hc : t.isSeparator ")" = false := by simpa using hnone
      by_cases ho : t.isSeparator "(" = true
      · simp [parameterStep, hc, ho] at hstop
      · by_cases hb : t.isSeparator "\x7b" = true
        · simpa using hb
        · simp [parameterStep, hc, ho, hb] at hstop

theorem yields_functionBody :
    Yields functionBody ts fun xs rest => Row (2 * maxNesting + 3) rest.isEmpty xs ∧
      ∃ body final, xs = body :: leaves final ∧ body.toParseTree.IsOf [.functionBody] ∧
        ParseTree.AtMost "\x7d" ((leaves final).map toParseTree) ∧
          (final = [] → rest = []) := by
  apply (yields_statements (reads_statement maxNesting) ts).bind
  rintro list rest ⟨hrow, hlist, hstop⟩
  have hnode : Fits (2 * maxNesting + 3) rest.isEmpty (.node .functionBody list) :=
    hrow.fits (by simpa [Construct.Shape] using hlist) fun hc => absurd hc (by decide)
  apply yields_accept
  · rintro closer us rfl hc
    have hpieces : Pieces (2 * maxNesting + 3) [.node .functionBody list, .leaf closer] := by
      simpa using hnode
    refine yields_pure ⟨hpieces.row, _, [closer], rfl, isOf_node (by decide) _, ?_, nofun⟩
    exact .inr (by simp [leaves, ← toParseTree_separator hc])
  · intro hnone
    have hrest := hstop.eq_nil hnone
    apply yields_here
    intro line
    apply yields_note
    exact yields_pure ⟨.single hnode, _, [], rfl, isOf_node (by decide) _, .inl rfl,
      fun _ => hrest⟩

/-- The trees of a type, a name, a parenthesis and the parameters. -/
def signatureTrees (type : List Token) (name opener : Token) (run : List Token) : List SyntaxTree :=
  leaves type ++ [.leaf name, .leaf opener, .node .parameters (leaves run)]

section

variable {type : List Token} {name opener : Token}

theorem signatureTrees_append (run : List Token) (trees : List SyntaxTree) :
    leaves type ++ .leaf name :: .leaf opener :: .node .parameters (leaves run) :: trees =
      signatureTrees type name opener run ++ trees := by
  simp [signatureTrees]

theorem signatureTrees_pieces (run : List Token) :
    Pieces (h + 2) (signatureTrees type name opener run) := by
  have hparams : Fits (h + 2) false (.node .parameters (leaves run)) :=
    (pieces_leaves run).fits trivial (by decide)
  simpa [signatureTrees, leaves] using hparams

theorem signatureTrees_shape (htype : ∀ t ∈ type, t.isTypeKeyword = true ∨ t.isIdentifier = true ∨
      t.isOperator "*" = true) (hne : type ≠ []) (hname : name.isIdentifier = true)
    (hopener : opener.isSeparator "(" = true) (run : List Token) :
    ParseTree.FunctionHead ((signatureTrees type name opener run).map toParseTree) := by
  refine ⟨(leaves type).map toParseTree, .terminal name,
    (node .parameters (leaves run)).toParseTree, ?_, by simpa [leaves] using hne, ?_,
    ⟨name, rfl, hname⟩, isOf_node (by decide) _⟩
  · simp [signatureTrees, ← toParseTree_separator hopener]
  · intro t ht
    obtain ⟨b, hb, rfl⟩ := List.mem_map.1 ht
    obtain ⟨w, hw, rfl⟩ := List.mem_map.1 hb
    exact ⟨w, toParseTree_leaf w, htype w hw⟩

end

/-- The constructs that stand right in a source. -/
def functions : List Construct := [.functionDefinition, .functionDeclaration]

theorem yields_function {t : Token} (ht : t.isTypeKeyword = true) :
    Yields function (t :: ts) (Gives functions (2 * maxNesting + 4)) := by
  apply yields_typeSpec.bind
  rintro type rest ⟨htype, hne⟩
  apply yields_expect
  · intro name us _ hname
    apply yields_expect
    · intro opener vs _ hopener
      apply yields_parameters.bind
      intro o rest ho
      cases o with
      | none => exact yields_pure gives_none
      | some params =>
        obtain ⟨run, close, rfl, hclose, hbrace⟩ := ho params rfl
        have hhead := signatureTrees_shape htype (hne ht) hname hopener run
        have hfront : Pieces (2 * maxNesting + 3)
            (signatureTrees type name opener run ++ leaves close) :=
          pieces_append.2 ⟨signatureTrees_pieces run, pieces_leaves close⟩
        apply yields_accept
        · rintro semicolon ws rfl hs
          -- Without the parenthesis a brace follows, not a semicolon.
          have hparen : (leaves close).map toParseTree = [.separator ")"] := by
            apply hclose.resolve_left
            intro hnone
            have hb := hbrace (by simpa [leaves] using hnone)
            have hno : semicolon.isSeparator "\x7b" = false :=
              Token.not_separator_of_separator hs (by decide)
            simp [hno] at hb
          apply yields_pure
          rw [signatureTrees_append]
          exact gives_some (by decide) (fits_functionDeclaration hhead hparen hs hfront)
        · intro _
          apply yields_expect
          · intro brace ws _ hb
            apply yields_functionBody.bind
            rintro xs rest ⟨hrow, body, final, rfl, hbody, hfinal, hend⟩
            have hcut : leaves final = [] → rest.isEmpty = true := by
              intro hnone
              rw [hend (by simpa [leaves] using hnone)]
              rfl
            apply yields_pure
            rw [signatureTrees_append]
            exact gives_some (by decide)
              (fits_functionDefinition hhead hclose hb hbody hfinal hcut hfront hrow)
          · exact yields_pure gives_none
    · exact yields_pure gives_none
  · exact yields_pure gives_none

theorem topLevelItem_readsRow :
    ReadsRow topLevelItem functions (2 * maxNesting + 4) fun _ => True := by
  refine ⟨fun ts xs hv => ?_, fun _ _ => trivial, rfl⟩
  cases ts with
  | nil => cases hv
  | cons t us =>
    obtain ⟨fs, hfs, hlt⟩ := topLevelItem_progress t us
    obtain rfl : fs = xs := Option.some.inj (hfs.symm.trans hv)
    suffices hrow : Yields topLevelItem (t :: us) fun o rest => ∀ xs ∈ o,
        Row (2 * maxNesting + 4) rest.isEmpty xs ∧ ∀ b ∈ xs, b.toParseTree.IsOf functions by
      exact ⟨(hrow fs hv).1, (hrow fs hv).2, hlt⟩
    unfold Yields
    rw [topLevelItem_cons]
    split
    · rintro _ ⟨⟩
      exact ⟨pieces_nil.row, nofun⟩
    · have hexternal : Yields (external t) (t :: us) fun xs rest =>
          Row (2 * maxNesting + 4) rest.isEmpty xs ∧ ∀ b ∈ xs, b.toParseTree.IsOf functions := by
        apply yields_ite
        · intro ht
          apply (yields_function ht).bind
          intro o rest ho
          apply yields_pure
          exact ⟨⟨[], o, rfl, pieces_nil, fun b hb => (ho b hb).2⟩,
            fun b hb => (ho b (Option.mem_toList.1 hb)).1⟩
        · intro _
          exact yields_note (yields_pure ⟨pieces_nil.row, nofun⟩)
      have hadvancing := yields_advancing hexternal fun xs u vs hxs =>
        ⟨hxs.1.mono (Nat.le_refl _) nofun, hxs.2⟩
      rintro _ ⟨⟩
      exact hadvancing

/-- The tree of a whole source: beside its levels it holds the source, a function and the function's
body. -/
theorem program_fits (ts : List Token) :
    Fits (2 * maxNesting + 5) true (program ts).value ∧
      (program ts).value.toParseTree.IsOf [.program] := by
  have hprogram : Yields program ts fun b _ =>
      Fits (2 * maxNesting + 5) true b ∧ b.toParseTree.IsOf [.program] := by
    apply (topLevelItem_readsRow.many ts).bind
    rintro lists rest ⟨hrow, hof, -⟩
    refine yields_pure ⟨?_, isOf_node (by decide) _⟩
    apply (hrow.mono (Nat.le_refl _) fun _ => rfl).fits
    · intro t ht
      obtain ⟨b, hb, rfl⟩ := List.mem_map.1 ht
      exact hof b hb
    · exact fun hc => absurd hc (by decide)
  exact hprogram

end

end Parse

open Parse

/-- However malformed the tokens, every node of the tree has its shape. A function or a block
without its closing brace is at the right edge of the tree: the input ended inside it. -/
theorem tree_wellShaped (ts : List Token) :
    (parseTokens ts).tree.IsOf [.program] ∧
      ∀ path t, (parseTokens ts).tree.at? path = some t →
        t.WellShaped ∧ (t.Unclosed → (parseTokens ts).tree.OnRightEdge path) := by
  obtain ⟨hfits, hprogram⟩ := program_fits ts
  refine ⟨hprogram, fun path t ht => ?_⟩
  obtain ⟨hshape, hopen⟩ := hfits.at_path ht
  exact ⟨hshape, fun ho => (hopen ho).2⟩

end CAudit
