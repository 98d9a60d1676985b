import CAudit.SyntaxTree
import CAudit.Token.Role
import CAudit.Proofs.Token

/-! The leaves of a tree: all of them, and those that stand where an expression may call. -/
namespace CAudit.SyntaxTree

@[simp] theorem tokens_leaf (t : Token) : (leaf t).tokens = [t] := by rw [tokens]

@[simp] theorem tokens_node (c : Construct) (ts : List SyntaxTree) :
    (node c ts).tokens = tokensAll ts := by rw [tokens]

@[simp] theorem tokensAll_nil : tokensAll [] = [] := by rw [tokensAll]

@[simp] theorem tokensAll_cons (t : SyntaxTree) (ts : List SyntaxTree) :
    tokensAll (t :: ts) = t.tokens ++ tokensAll ts := by rw [tokensAll]

@[simp] theorem tokensAll_append (ts us : List SyntaxTree) :
    tokensAll (ts ++ us) = tokensAll ts ++ tokensAll us := by
  induction ts with
  | nil => simp
  | cons t ts ih => simp [ih]

@[simp] theorem tokensAll_leaves (ts : List Token) : tokensAll (ts.map leaf) = ts := by
  induction ts with
  | nil => rfl
  | cons t ts ih => simp [ih]

/-- The names of the constructs whose own identifiers stand in expression position. -/
def expressionNames : List String :=
  ["Expression", "ArraySize", "Condition", "InitializerList", "LabelStatement"]

def holdsUses (c : Construct) : Bool := expressionNames.contains c.name

/-- The constructs with these names. -/
@[simp] theorem holdsUses_eq (c : Construct) : holdsUses c =
    (c = .expression || c = .arraySize || c = .condition || c = .initializerList ||
      c = .labelStatement) := by
  cases c <;> rfl

mutual

/-- The identifiers in expression position, from left to right. The flag tells whether the tree
stands right under a construct that holds them. -/
def usesIn (held : Bool) : SyntaxTree → List Token
  | .leaf t => if held && t.isIdentifier then [t] else []
  | .node c ts => usesAll (holdsUses c) ts

def usesAll (held : Bool) : List SyntaxTree → List Token
  | [] => []
  | t :: ts => t.usesIn held ++ usesAll held ts

end

/-- The identifiers of a whole tree in expression position. -/
def uses (t : SyntaxTree) : List Token := t.usesIn false

@[simp] theorem usesIn_leaf (held : Bool) (t : Token) :
    (leaf t).usesIn held = if held && t.isIdentifier then [t] else [] := by rw [usesIn]

@[simp] theorem usesIn_node (held : Bool) (c : Construct) (ts : List SyntaxTree) :
    (node c ts).usesIn held = usesAll (holdsUses c) ts := by rw [usesIn]

@[simp] theorem usesAll_nil (held : Bool) : usesAll held [] = [] := by rw [usesAll]

@[simp] theorem usesAll_cons (held : Bool) (t : SyntaxTree) (ts : List SyntaxTree) :
    usesAll held (t :: ts) = t.usesIn held ++ usesAll held ts := by rw [usesAll]

@[simp] theorem usesAll_append (held : Bool) (ts us : List SyntaxTree) :
    usesAll held (ts ++ us) = usesAll held ts ++ usesAll held us := by
  induction ts with
  | nil => simp
  | cons t ts ih => simp [ih]

@[simp] theorem usesAll_leaves (held : Bool) (ts : List Token) :
    usesAll held (ts.map leaf) = if held then ts.filter (·.isIdentifier) else [] := by
  induction ts with
  | nil => cases held <;> rfl
  | cons t ts ih => cases held <;> cases h : t.isIdentifier <;> simp_all

@[simp] theorem toParseTree_leaf (t : Token) : (leaf t).toParseTree = .terminal t := by
  rw [toParseTree]

@[simp] theorem toParseTrees_eq_map (ts : List SyntaxTree) :
    toParseTrees ts = ts.map toParseTree := by
  induction ts with
  | nil => rw [toParseTrees, List.map_nil]
  | cons t ts ih => rw [toParseTrees, ih, List.map_cons]

@[simp] theorem toParseTree_node (c : Construct) (ts : List SyntaxTree) :
    (node c ts).toParseTree = .nonTerminal c.name (ts.map toParseTree) := by
  rw [toParseTree, toParseTrees_eq_map]

end CAudit.SyntaxTree
