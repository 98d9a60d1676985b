import CAudit.Proofs.SyntaxTree

/-! The shape of trees. Each construct says which children it may have. A construct that lacks its
closing brace was cut off by the end of the input, so nothing can stand to its right. -/
namespace CAudit

namespace ParseTree

/-- The leaf that shows a separator. -/
def separator (lexeme : String) : ParseTree := ⟨Token.Kind.separator.name, some lexeme, true, []⟩

/-- A leaf that shows an identifier. -/
def IsName (t : ParseTree) : Prop := ∃ w : Token, t = terminal w ∧ w.isIdentifier = true

/-- A leaf of a type: a type keyword, the tag behind one, or a star. -/
def IsTypeWord (t : ParseTree) : Prop :=
  ∃ w : Token, t = terminal w ∧
    (w.isTypeKeyword = true ∨ w.isIdentifier = true ∨ w.isOperator "*" = true)

/-- One of the given constructs. -/
def IsOf (cs : List Construct) (t : ParseTree) : Prop :=
  ∃ c ∈ cs, ∃ ts, t = nonTerminal c.name ts

/-- A separator that may be missing. -/
def AtMost (lexeme : String) (ts : List ParseTree) : Prop := ts = [] ∨ ts = [separator lexeme]

/-- What a function starts with: its type, its name, a parenthesis and the parameters. -/
def FunctionHead (ts : List ParseTree) : Prop :=
  ∃ type name params, ts = type ++ [name, separator "(", params] ∧ type ≠ [] ∧
    (∀ t ∈ type, t.IsTypeWord) ∧ name.IsName ∧ params.IsOf [.parameters]

end ParseTree

namespace Construct

open ParseTree

/-- The constructs that a statement can be. -/
def ofStatement : List Construct :=
  [.block, .emptyStatement, .returnStatement, .controlStructure, .declaration,
    .expressionStatement, .jumpStatement, .labelStatement]

/-- The constructs that end with a semicolon. -/
def terminated : List Construct :=
  [.declaration, .expressionStatement, .returnStatement, .jumpStatement]

/-- The constructs that end with a brace. -/
def braced : List Construct := [.functionDefinition, .block]

/-- The children that a construct may have. -/
def Shape : Construct → List ParseTree → Prop
  | .program, ts => ∀ t ∈ ts, t.IsOf [.functionDefinition, .functionDeclaration]
  | .functionDeclaration, ts =>
    ∃ head, FunctionHead head ∧ ts = head ++ [separator ")", separator ";"]
  | .functionDefinition, ts =>
    ∃ head close body final, FunctionHead head ∧ AtMost ")" close ∧ body.IsOf [.functionBody] ∧
      AtMost "\x7d" final ∧ ts = head ++ close ++ [separator "\x7b", body] ++ final
  | .functionBody, ts => ∀ t ∈ ts, t.IsOf [.statement]
  | .block, ts =>
    ∃ body final, (∀ t ∈ body, t.IsOf [.statement]) ∧ AtMost "\x7d" final ∧
      ts = separator "\x7b" :: body ++ final
  | .statement, ts => ∃ t, t.IsOf ofStatement ∧ ts = [t]
  | .declaration, ts | .expressionStatement, ts | .returnStatement, ts | .jumpStatement, ts =>
    ∃ parts, ts = parts ++ [separator ";"]
  | _, _ => True

end Construct

namespace ParseTree

/-- A leaf with its value and no children, or a construct without a value whose children it may
have. -/
def WellShaped (t : ParseTree) : Prop :=
  (t.isTerminal = true ∧ t.value.isSome = true ∧ t.children = []) ∨
    ∃ c : Construct, t = nonTerminal c.name t.children ∧ c.Shape t.children

/-- A construct without the brace that should close it. -/
def Unclosed (t : ParseTree) : Prop :=
  t.IsOf Construct.braced ∧ t.children.getLast? ≠ some (separator "\x7d")

/-- The path goes to the last child at every step. -/
def OnRightEdge (t : ParseTree) : List Nat → Prop
  | [] => True
  | i :: path =>
    i + 1 = t.children.length ∧ ∀ c, t.children[i]? = some c → c.OnRightEdge path

theorem heightAll_le {ts : List ParseTree} {h : Nat} :
    heightAll ts ≤ h ↔ ∀ t ∈ ts, t.height ≤ h := by
  induction ts with
  | nil => simp [heightAll]
  | cons t ts ih => rw [heightAll, Nat.max_le, ih, List.forall_mem_cons]

end ParseTree

theorem Construct.mem_of_isOf {cs : List Construct} {c : Construct} {ts : List ParseTree}
    (h : (ParseTree.nonTerminal c.name ts).IsOf cs) : c ∈ cs := by
  obtain ⟨d, hd, us, heq⟩ := h
  have hname : c.name = d.name := congrArg ParseTree.name heq
  suffices c = d by rwa [this]
  cases c <;> cases d <;> first | rfl | exact absurd hname (by decide)

namespace SyntaxTree

open ParseTree

theorem toParseTree_separator {t : Token} {l : String} (h : t.isSeparator l = true) :
    (leaf t).toParseTree = separator l := by
  obtain ⟨hk, hl⟩ := Token.isSeparator_iff.1 h
  simp [ParseTree.terminal, separator, hk, hl]

theorem isOf_node {cs : List Construct} {c : Construct} (hc : c ∈ cs) (ts : List SyntaxTree) :
    (node c ts).toParseTree.IsOf cs := ⟨c, hc, _, toParseTree_node c ts⟩

/-- A tree of at most `h` nodes in height, whose constructs have their shape. Where the input was
not cut off every brace is closed; else only at the right edge one may be missing. -/
inductive Fits : Nat → Bool → SyntaxTree → Prop
  | leaf {h : Nat} {cut : Bool} (t : Token) : Fits (h + 1) cut (.leaf t)
  | node {h : Nat} {cut : Bool} {c : Construct} {front : List SyntaxTree}
      {last : Option SyntaxTree} : c.Shape ((front ++ last.toList).map toParseTree) →
      ((SyntaxTree.node c (front ++ last.toList)).toParseTree.Unclosed → cut = true) →
      (∀ b ∈ front, Fits h false b) → (∀ b ∈ last, Fits h cut b) →
      Fits (h + 1) cut (.node c (front ++ last.toList))

namespace Fits

theorem mono {h k : Nat} {cut more : Bool} {b : SyntaxTree} (hb : Fits h cut b) (hk : h ≤ k)
    (hcut : cut = true → more = true) : Fits k more b := by
  induction hb generalizing k more with
  | leaf t =>
    obtain ⟨j, rfl⟩ : ∃ j, k = j + 1 := ⟨k - 1, by omega⟩
    exact .leaf t
  | node hshape hopen _ _ ihFront ihLast =>
    obtain ⟨j, rfl⟩ : ∃ j, k = j + 1 := ⟨k - 1, by omega⟩
    have hj := Nat.le_of_succ_le_succ hk
    exact .node hshape (fun ho => hcut (hopen ho)) (fun b hb => ihFront b hb hj nofun)
      (fun b hb => ihLast b hb hj hcut)

theorem height_le {h : Nat} {cut : Bool} {b : SyntaxTree} (hb : Fits h cut b) :
    b.toParseTree.height ≤ h := by
  induction hb with
  | leaf t => simp [ParseTree.terminal, height, heightAll]
  | node _ _ _ _ ihFront ihLast =>
    rw [toParseTree_node, nonTerminal, height]
    apply Nat.succ_le_succ
    apply heightAll_le.2
    intro t ht
    obtain ⟨b, hb, rfl⟩ := List.mem_map.1 ht
    rcases List.mem_append.1 hb with hb | hb
    · exact ihFront b hb
    · exact ihLast b (Option.mem_toList.1 hb)

theorem wellShaped {h : Nat} {cut : Bool} {b : SyntaxTree} (hb : Fits h cut b) :
    b.toParseTree.WellShaped := by
  cases hb with
  | leaf t => exact .inl ⟨rfl, rfl, rfl⟩
  | @node _ _ c _ _ hshape _ _ _ =>
    refine .inr ⟨c, ?_⟩
    rw [toParseTree_node]
    exact ⟨rfl, hshape⟩

/-- A child that is not the last one is not cut off. -/
theorem child {h : Nat} {cut : Bool} {b : SyntaxTree} (hb : Fits h cut b) {i : Nat}
    {t : ParseTree} (ht : b.toParseTree.children[i]? = some t) :
    ∃ child k edge, t = child.toParseTree ∧ Fits k edge child ∧
      (edge = true → cut = true ∧ i + 1 = b.toParseTree.children.length) := by
  cases hb with
  | leaf t => simp [ParseTree.terminal] at ht
  | @node h _ c front last _ _ hfront hlast =>
    rw [toParseTree_node] at ht ⊢
    simp only [nonTerminal, List.getElem?_map, Option.map_eq_some_iff] at ht ⊢
    obtain ⟨child, hi, rfl⟩ := ht
    rcases Nat.lt_or_ge i front.length with hlt | hge
    · rw [List.getElem?_append_left hlt] at hi
      exact ⟨child, h, false, rfl, hfront child (List.mem_of_getElem? hi), by simp⟩
    · rw [List.getElem?_append_right hge] at hi
      have hmem := Option.mem_toList.1 (List.mem_of_getElem? hi)
      refine ⟨child, h, cut, rfl, hlast child hmem, fun hcut => ⟨hcut, ?_⟩⟩
      obtain rfl : last = some child := hmem
      have hlt : i - front.length < 1 := (List.getElem?_eq_some_iff.1 hi).1
      simp only [List.length_map, List.length_append, Option.toList_some, List.length_singleton]
      omega

/-- Every node has its shape, and one that is not closed is at the right edge of a tree that was cut
off. -/
theorem at_path {path : List Nat} {h : Nat} {cut : Bool} {b : SyntaxTree} (hb : Fits h cut b)
    {t : ParseTree} (ht : b.toParseTree.at? path = some t) :
    t.WellShaped ∧ (t.Unclosed → cut = true ∧ b.toParseTree.OnRightEdge path) := by
  induction path generalizing h cut b with
  | nil =>
    obtain rfl : b.toParseTree = t := by simpa [at?] using ht
    refine ⟨hb.wellShaped, fun ho => ⟨?_, trivial⟩⟩
    cases hb with
    | leaf t =>
      obtain ⟨⟨_, -, _, heq⟩, -⟩ := ho
      cases congrArg ParseTree.isTerminal heq
    | node _ hopen _ _ => exact hopen ho
  | cons i path ih =>
    rw [at?] at ht
    cases hi : b.toParseTree.children[i]? with
    | none => simp [hi] at ht
    | some u =>
      rw [hi] at ht
      obtain ⟨child, k, edge, rfl, hchild, hedge⟩ := hb.child hi
      obtain ⟨hshape, hopen⟩ := ih hchild ht
      refine ⟨hshape, fun ho => ?_⟩
      obtain ⟨hcut, hpath⟩ := hopen ho
      obtain ⟨hcut, hlen⟩ := hedge hcut
      refine ⟨hcut, hlen, fun v hv => ?_⟩
      obtain rfl : child.toParseTree = v := Option.some.inj (hi.symm.trans hv)
      exact hpath

end Fits

/-- Trees none of which is cut off. -/
def Pieces (h : Nat) (ts : List SyntaxTree) : Prop := ∀ b ∈ ts, Fits h false b

/-- Trees of which only the last may be cut off. -/
def Row (h : Nat) (cut : Bool) (ts : List SyntaxTree) : Prop :=
  ∃ (front : List SyntaxTree) (last : Option SyntaxTree), ts = front ++ last.toList ∧
    Pieces h front ∧ ∀ b ∈ last, Fits h cut b

section

variable {h k : Nat} {cut : Bool} {ts us : List SyntaxTree} {b : SyntaxTree}

@[simp] theorem pieces_nil : Pieces h [] := nofun

@[simp] theorem pieces_cons : Pieces h (b :: ts) ↔ Fits h false b ∧ Pieces h ts := by
  simp [Pieces]

@[simp] theorem pieces_append : Pieces h (ts ++ us) ↔ Pieces h ts ∧ Pieces h us := by
  simp [Pieces, or_imp, forall_and]

@[simp] theorem fits_leaf (t : Token) : Fits (h + 1) cut (.leaf t) := .leaf t

@[simp] theorem pieces_leaves (run : List Token) : Pieces (h + 1) (run.map leaf) := by
  intro b hb
  obtain ⟨t, -, rfl⟩ := List.mem_map.1 hb
  exact .leaf t

theorem pieces_flatten {lists : List (List SyntaxTree)} (hl : ∀ xs ∈ lists, Pieces h xs) :
    Pieces h lists.flatten := by
  intro b hb
  obtain ⟨xs, hxs, hb⟩ := List.mem_flatten.1 hb
  exact hl xs hxs b hb

theorem Pieces.mono (hts : Pieces h ts) (hk : h ≤ k) : Pieces k ts :=
  fun b hb => (hts b hb).mono hk id

theorem Pieces.row (hts : Pieces h ts) : Row h cut ts := ⟨ts, none, by simp, hts, nofun⟩

theorem Row.single (hb : Fits h cut b) : Row h cut [b] :=
  ⟨[], some b, rfl, pieces_nil, fun _ hc => Option.some.inj hc ▸ hb⟩

theorem Pieces.append_row (hts : Pieces h ts) (hus : Row h cut us) : Row h cut (ts ++ us) := by
  obtain ⟨front, last, rfl, hfront, hlast⟩ := hus
  exact ⟨ts ++ front, last, (List.append_assoc ..).symm, pieces_append.2 ⟨hts, hfront⟩, hlast⟩

theorem Row.cons (hb : Fits h false b) (hts : Row h cut ts) : Row h cut (b :: ts) := by
  have hone : Pieces h [b] := by simpa using hb
  exact hone.append_row hts

theorem Row.pieces (hts : Row h false ts) : Pieces h ts := by
  obtain ⟨front, last, rfl, hfront, hlast⟩ := hts
  exact pieces_append.2 ⟨hfront, fun b hb => hlast b (Option.mem_toList.1 hb)⟩

theorem Row.mono {more : Bool} (hts : Row h cut ts) (hk : h ≤ k)
    (hcut : cut = true → more = true) : Row k more ts := by
  obtain ⟨front, last, rfl, hfront, hlast⟩ := hts
  exact ⟨front, last, rfl, hfront.mono hk, fun b hb => (hlast b hb).mono hk hcut⟩

/-- A construct over a row, with its brace unless the input was cut off. -/
theorem Row.fits {c : Construct} (hts : Row h cut ts) (hshape : c.Shape (ts.map toParseTree))
    (hopen : c ∈ Construct.braced → (ts.map toParseTree).getLast? = some (separator "\x7d") ∨
      cut = true) : Fits (h + 1) cut (.node c ts) := by
  obtain ⟨front, last, rfl, hfront, hlast⟩ := hts
  refine .node hshape (fun ho => ?_) hfront hlast
  obtain ⟨hof, hend⟩ := ho
  rw [toParseTree_node] at hof hend
  exact (hopen (Construct.mem_of_isOf hof)).resolve_left hend

theorem Row.fits_control (hts : Row h cut ts) : Fits (h + 1) cut (.node .controlStructure ts) :=
  hts.fits trivial fun hb => absurd hb (by decide)

/-- A construct that has no brace of its own. -/
theorem Pieces.fits {c : Construct} (hts : Pieces h ts) (hshape : c.Shape (ts.map toParseTree))
    (hc : c ∉ Construct.braced) : Fits (h + 1) cut (.node c ts) :=
  hts.row.fits hshape fun hb => absurd hb hc

/-- A construct that ends with a semicolon. -/
theorem Pieces.fits_terminated {c : Construct} (hc : c ∈ Construct.terminated)
    (hts : Pieces (h + 1) ts) {semicolon : Token} (hs : semicolon.isSeparator ";" = true) :
    Fits (h + 2) cut (.node c (ts ++ [.leaf semicolon])) := by
  have hend : c.Shape ((ts ++ [leaf semicolon]).map toParseTree) := by
    have hparts : ∃ parts, (ts ++ [leaf semicolon]).map toParseTree = parts ++ [separator ";"] :=
      ⟨ts.map toParseTree, by rw [List.map_append, List.map_singleton, toParseTree_separator hs]⟩
    simp only [Construct.terminated, List.mem_cons, List.not_mem_nil, or_false] at hc
    rcases hc with rfl | rfl | rfl | rfl <;> exact hparts
  refine Pieces.fits (by simpa using hts) hend fun hb => ?_
  simp only [Construct.terminated, Construct.braced, List.mem_cons, List.not_mem_nil,
    or_false] at hc hb
  rcases hb with rfl | rfl <;> simp at hc

theorem fits_functionDeclaration {head close : List SyntaxTree} {semicolon : Token}
    (hhead : FunctionHead (head.map toParseTree)) (hclose : close.map toParseTree = [separator ")"])
    (hs : semicolon.isSeparator ";" = true) (hfront : Pieces (h + 1) (head ++ close)) :
    Fits (h + 2) cut (.node .functionDeclaration (head ++ close ++ [.leaf semicolon])) := by
  refine Pieces.fits (by simpa using hfront) ⟨_, hhead, ?_⟩ (by decide)
  rw [List.map_append, List.map_append, hclose, List.map_singleton, toParseTree_separator hs,
    List.append_assoc]
  rfl

theorem fits_functionDefinition {head close final : List SyntaxTree} {body : SyntaxTree}
    {brace : Token} (hhead : FunctionHead (head.map toParseTree))
    (hclose : AtMost ")" (close.map toParseTree)) (hb : brace.isSeparator "\x7b" = true)
    (hbody : body.toParseTree.IsOf [.functionBody]) (hfinal : AtMost "\x7d" (final.map toParseTree))
    (hcut : final = [] → cut = true) (hfront : Pieces (h + 1) (head ++ close))
    (hrow : Row (h + 1) cut (body :: final)) :
    Fits (h + 2) cut
      (.node .functionDefinition (head ++ close ++ .leaf brace :: body :: final)) := by
  apply (hfront.append_row (hrow.cons (.leaf brace))).fits
  · refine ⟨_, _, body.toParseTree, _, hhead, hclose, hbody, hfinal, ?_⟩
    simp [← toParseTree_separator hb]
  · intro _
    rcases hfinal with hnone | hlast
    · exact .inr (hcut (List.map_eq_nil_iff.1 hnone))
    · left
      rw [List.map_append, List.map_cons, List.map_cons, hlast]
      simp

end

end SyntaxTree

end CAudit
