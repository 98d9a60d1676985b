import CAudit.Proofs.CleanStatement

/-! Places in a tree where a statement of a list begins. Only statements that stand right in the
body of a function or in a block count, and a place knows how many levels are open around it. -/
namespace CAudit.SyntaxTree

open Grammar

/-- A construct whose own statements form a list. -/
def holdsStatements (c : Construct) : Bool := c = .functionBody || c = .block

/-- The levels that reading a child of a construct opens. -/
def levels : Construct → SyntaxTree → Nat
  | .statement, _ => 1
  | .controlStructure, .node .block _ => 1
  | _, _ => 0

mutual

/-- In the tree a statement of a list begins behind the tokens `pre`, at the first of the tokens
`post`, with `d` levels open around it. -/
inductive Place : Nat → SyntaxTree → List Token → List Token → Prop
  | node {c : Construct} {d : Nat} {children : List SyntaxTree} {pre post : List Token} :
      PlaceAmong c d children pre post → Place d (.node c children) pre post

/-- The same among the children of a construct: in front of a statement, inside the first child, or
among the others. -/
inductive PlaceAmong : Construct → Nat → List SyntaxTree → List Token → List Token → Prop
  | here {c : Construct} {body back : List SyntaxTree} : holdsStatements c = true →
      PlaceAmong c 0 (.node .statement body :: back) [] (tokensAll body ++ tokensAll back)
  | first {c : Construct} {d : Nat} {child : SyntaxTree} {back : List SyntaxTree}
      {pre post : List Token} : Place d child pre post →
      PlaceAmong c (d + levels c child) (child :: back) pre (post ++ tokensAll back)
  | later {c : Construct} {d : Nat} {child : SyntaxTree} {back : List SyntaxTree}
      {pre post : List Token} : PlaceAmong c d back pre post →
      PlaceAmong c d (child :: back) (child.tokens ++ pre) post

end

mutual

/-- A place splits the tokens of its tree. -/
theorem Place.tokens_eq {d : Nat} {b : SyntaxTree} {pre post : List Token} :
    Place d b pre post → b.tokens = pre ++ post
  | .node h => by rw [tokens_node, h.tokens_eq]

theorem PlaceAmong.tokens_eq {c : Construct} {d : Nat} {children : List SyntaxTree}
    {pre post : List Token} : PlaceAmong c d children pre post → tokensAll children = pre ++ post
  | .here _ => by simp
  | .first h => by simp [h.tokens_eq]
  | .later h => by simp [h.tokens_eq]

end

theorem PlaceAmong.append {c : Construct} {d : Nat} {children : List SyntaxTree}
    {pre post : List Token} (h : PlaceAmong c d children pre post) (back : List SyntaxTree) :
    PlaceAmong c d (children ++ back) pre (post ++ tokensAll back) := by
  induction children generalizing pre with
  | nil => cases h
  | cons child children ih =>
    cases h with
    | @here _ body _ hc =>
      have h := @PlaceAmong.here c body (children ++ back) hc
      rwa [tokensAll_append, ← List.append_assoc] at h
    | @first _ d _ _ _ post h =>
      have h := @PlaceAmong.first c d child (children ++ back) pre post h
      rwa [tokensAll_append, ← List.append_assoc] at h
    | later h => exact .later (ih h)

mutual

/-- Whether some construct of the tree holds a list of statements. -/
def nests : SyntaxTree → Bool
  | .leaf _ => false
  | .node c ts => holdsStatements c || nestsAll ts

def nestsAll : List SyntaxTree → Bool
  | [] => false
  | t :: ts => t.nests || nestsAll ts

end

@[simp] theorem nests_leaf (t : Token) : (leaf t).nests = false := by rw [nests]

@[simp] theorem nests_node (c : Construct) (ts : List SyntaxTree) :
    (node c ts).nests = (holdsStatements c || nestsAll ts) := by rw [nests]

@[simp] theorem nestsAll_nil : nestsAll [] = false := by rw [nestsAll]

@[simp] theorem nestsAll_cons (t : SyntaxTree) (ts : List SyntaxTree) :
    nestsAll (t :: ts) = (t.nests || nestsAll ts) := by rw [nestsAll]

@[simp] theorem nestsAll_append (ts us : List SyntaxTree) :
    nestsAll (ts ++ us) = (nestsAll ts || nestsAll us) := by
  induction ts with
  | nil => simp
  | cons t ts ih => simp [ih, Bool.or_assoc]

@[simp] theorem nestsAll_leaves (ts : List Token) : nestsAll (ts.map leaf) = false := by
  induction ts with
  | nil => rfl
  | cons t ts ih => simp [ih]

mutual

theorem Place.nests {d : Nat} {b : SyntaxTree} {pre post : List Token} :
    Place d b pre post → b.nests = true
  | .node h => by
    rw [nests_node, Bool.or_eq_true]
    exact h.nests

theorem PlaceAmong.nests {c : Construct} {d : Nat} {children : List SyntaxTree}
    {pre post : List Token} :
    PlaceAmong c d children pre post → holdsStatements c = true ∨ nestsAll children = true
  | .here hc => .inl hc
  | .first h => .inr (by simp [h.nests])
  | .later h => by
    rcases h.nests with hc | hb
    · exact .inl hc
    · exact .inr (by simp [hb])

end

theorem not_place_of_nests {d : Nat} {b : SyntaxTree} {pre post : List Token}
    (hb : b.nests = false) : ¬ Place d b pre post := fun h => by simp [h.nests] at hb

/-- Among children of a construct without a list of its own, a place is inside one of them. -/
theorem placeAmong_cons {c : Construct} (hc : holdsStatements c = false) {d : Nat}
    {child : SyntaxTree} {back : List SyntaxTree} {pre post : List Token} :
    PlaceAmong c d (child :: back) pre post ↔
      (∃ e after, Place e child pre after ∧ d = e + levels c child ∧
        post = after ++ tokensAll back) ∨
      ∃ before, PlaceAmong c d back before post ∧ pre = child.tokens ++ before := by
  constructor
  · rintro (hlist | h | h)
    · simp [hc] at hlist
    · exact .inl ⟨_, _, h, rfl, rfl⟩
    · exact .inr ⟨_, h, rfl⟩
  · rintro (⟨_, _, h, rfl, rfl⟩ | ⟨_, h, rfl⟩)
    · exact .first h
    · exact .later h

/-- Children without lists of statements are passed over. -/
theorem placeAmong_skip {c : Construct} (hc : holdsStatements c = false) {d : Nat}
    (front back : List SyntaxTree) (hf : nestsAll front = false) {pre post : List Token} :
    PlaceAmong c d (front ++ back) pre post ↔
      ∃ before, PlaceAmong c d back before post ∧ pre = tokensAll front ++ before := by
  induction front generalizing pre with
  | nil => simp
  | cons child front ih =>
    obtain ⟨hchild, hfront⟩ : child.nests = false ∧ nestsAll front = false := by simpa using hf
    simp only [List.cons_append, placeAmong_cons hc, not_place_of_nests hchild, false_and,
      exists_false, false_or, ih hfront]
    constructor
    · rintro ⟨_, ⟨before, h, rfl⟩, rfl⟩
      exact ⟨before, h, by simp⟩
    · rintro ⟨before, h, rfl⟩
      exact ⟨_, ⟨before, h, rfl⟩, by simp⟩

theorem not_placeAmong_nil {c : Construct} {d : Nat} {pre post : List Token} :
    ¬ PlaceAmong c d [] pre post := nofun

end CAudit.SyntaxTree

namespace CAudit.Grammar

open SyntaxTree

theorem items_nests {n : Nat} {commas : Bool} {items : List SyntaxTree}
    (h : Items n commas items) : nestsAll items = false := by
  induction h with
  | nil => rfl
  | token _ _ _ ih => simp [ih]
  | group _ _ _ ihInner ih => simp [ihInner, ih, holdsStatements]

theorem many_nests {Piece : List SyntaxTree → Prop}
    (hp : ∀ {xs}, Piece xs → nestsAll xs = false) {forest : List SyntaxTree}
    (h : Many Piece forest) : nestsAll forest = false := by
  induction h with
  | nil => rfl
  | cons hx _ ih => simp [hp hx, ih]

theorem nextExpression_nests {n : Nat} {xs : List SyntaxTree} (h : NextExpression n xs) :
    nestsAll xs = false := by
  obtain ⟨-, hi⟩ := h
  simp [items_nests hi, holdsStatements]

theorem declarator_nests {n : Nat} {xs : List SyntaxTree} (h : Declarator n xs) :
    nestsAll xs = false := by
  obtain ⟨-, hsizes, hv⟩ := h
  have hsizes : nestsAll _ = false := many_nests (fun hs => by
    obtain ⟨-, hi, -⟩ := hs
    simp [items_nests hi, holdsStatements]) hsizes
  cases hv with
  | none => simp [hsizes]
  | expression _ hi => simp [hsizes, items_nests hi, holdsStatements]
  | list _ _ _ _ => simp [hsizes, holdsStatements]

theorem nextDeclarator_nests {n : Nat} {xs : List SyntaxTree} (h : NextDeclarator n xs) :
    nestsAll xs = false := by
  obtain ⟨-, -, hd⟩ := h
  simp [declarator_nests hd]

end CAudit.Grammar
