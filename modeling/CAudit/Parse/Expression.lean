import CAudit.Parse.Basic

/-! Expressions: flat runs of tokens in which only `(...)` and `[...]` are balanced. Rules take
`room`, the number of levels that may still be opened. -/
namespace CAudit.Parse

/-- Takes a token of an expression. -/
def operand : Parse (Option (List SyntaxTree)) := do
  match ← next with
  | none => return none
  | some t =>
    mention [t]
    return some [.leaf t]

/-- The closing partner of an opening parenthesis or bracket. -/
def closerOf (opener : Token) : String := if opener.lexeme == "(" then ")" else "]"

def unclosedGroup (closer : String) : String :=
  if closer == ")" then "Unclosed parenthesis in expression/call"
  else "Unclosed bracket in array access"

/-- One item inside a group: a group of its own, or a token. Commas are tokens here. -/
def groupItem (group : Parse (List SyntaxTree)) (closer : String) :
    Parse (Option (List SyntaxTree)) := do
  match ← peek with
  | none => return none
  | some t =>
    if t.isSeparator closer then return none
    else if t.opensGroup then return some (← group)
    else if t.isSeparator "," then operand
    else if t.endsExpression then return none
    else operand

/-- A group: its opener, the expression inside, its closer. Past the last level only the opener is
taken, and what follows belongs to the expression around it. -/
def group : Nat → Parse (List SyntaxTree)
  | 0 => do
    match ← next with
    | none => return []
    | some opener =>
      noteLimit
      return [.leaf opener]
  | room + 1 => do
    match ← next with
    | none => return []
    | some opener =>
      let closer := closerOf opener
      let inner ← many (groupItem (group room) closer)
      let opened : List SyntaxTree := [.leaf opener, .node .expression inner.flatten]
      match ← accept (·.isSeparator closer) with
      | some t => return opened ++ [.leaf t]
      | none =>
        note (some opener.line) .unclosedGroup (unclosedGroup closer)
        return opened

/-- One item of an expression: a group, or a token that does not end it. -/
def expressionItem (room : Nat) : Parse (Option (List SyntaxTree)) := do
  match ← peek with
  | none => return none
  | some t =>
    if t.opensGroup then return some (← group room)
    else if t.endsExpression then return none
    else operand

/-- The items of an expression, up to a token that ends it. -/
def expressionItems (room : Nat) : Parse (List SyntaxTree) := do
  return (← many (expressionItem room)).flatten

def expression (room : Nat) (c : Construct) : Parse SyntaxTree := do
  return .node c (← expressionItems room)

end CAudit.Parse
