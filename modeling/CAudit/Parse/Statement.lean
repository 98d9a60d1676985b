import CAudit.Parse.Declaration

/-! Statements. A rule that misses a token it needs notes that and gives up its construct; the
tokens it took are not given back. -/
namespace CAudit.Parse

def emptyStatement : Parse (Option SyntaxTree) := do
  let some t ← next | return none
  return some (.node .emptyStatement [.leaf t])

/-- `return`, a value if there is one, and a semicolon. -/
def returnStatement (room : Nat) : Parse (Option SyntaxTree) := do
  let some keyword ← next | return none
  let items ← expressionItems room
  let value : List SyntaxTree := if items.isEmpty then [] else [.node .expression items]
  let some semicolon ← expect (·.isSeparator ";") "Missing ';' after return statement"
    | return none
  return some (.node .returnStatement (.leaf keyword :: value ++ [.leaf semicolon]))

/-- The label of a `goto`; the other jumps have none. -/
def jumpTarget (keyword : Token) : Parse (Option (List SyntaxTree)) := do
  if keyword.lexeme == "goto" then
    let some label ← expect (·.isIdentifier) "Expected label after 'goto'" | return none
    return some [.leaf label]
  else return some []

def jumpStatement : Parse (Option SyntaxTree) := do
  let some keyword ← next | return none
  let some target ← jumpTarget keyword | return none
  let some semicolon ←
      expect (·.isSeparator ";") ("Missing ';' after '" ++ keyword.lexeme ++ "'")
    | return none
  return some (.node .jumpStatement (.leaf keyword :: target ++ [.leaf semicolon]))

/-- `case` or `default`, the tokens up to a colon, and the colon. -/
def labelStatement : Parse (Option SyntaxTree) := do
  let some keyword ← next | return none
  let ts ← spanWhile fun t => !t.isSeparator ":" && !t.endsExpression
  mention ts
  match ← accept (·.isSeparator ":") with
  | some colon => return some (.node .labelStatement (.leaf keyword :: leaves ts ++ [.leaf colon]))
  | none =>
    note (← here) .missingToken "Missing ':' after case label"
    return some (.node .labelStatement (.leaf keyword :: leaves ts))

/-- A comma and one more expression. -/
def nextExpression (room : Nat) : Parse (Option (List SyntaxTree)) := do
  match ← accept (·.isSeparator ",") with
  | none => return none
  | some comma => return some [.leaf comma, ← expression room .expression]

def expressionStatement (room : Nat) : Parse (Option SyntaxTree) := do
  let line ← here
  let first ← expression room .expression
  let others ← many (nextExpression room)
  match ← accept (·.isSeparator ";") with
  | some semicolon =>
    return some (.node .expressionStatement (first :: others.flatten ++ [.leaf semicolon]))
  | none =>
    note line .missingToken "Missing ';' in statement"
    return none

/-- Parentheses of a condition: the depth of those open inside it. -/
def conditionStep (depth : Nat) (t : Token) : Option Nat :=
  if t.isSeparator ")" then if depth = 0 then none else some (depth - 1)
  else if t.isSeparator "(" then some (depth + 1)
  else if t.isSeparator "\x7b" || t.isSeparator "\x7d" || t.isDirective then none
  else some depth

/-- The tokens of a condition up to its closing parenthesis. A brace ends it too, so that a missing
parenthesis does not swallow the body. -/
def condition (keyword : Token) : Parse (List SyntaxTree) := do
  let (ts, _) ← spanFrom conditionStep 0
  mention ts
  match ← accept (·.isSeparator ")") with
  | some closer => return [.node .condition (leaves ts), .leaf closer]
  | none =>
    note (some keyword.line) .unclosedGroup ("Unclosed condition in '" ++ keyword.lexeme ++ "'")
    return [.node .condition (leaves ts)]

/-- One statement of a list; the list ends at a closing brace. -/
def statementItem (statement : Parse (Option SyntaxTree)) : Parse (Option (List SyntaxTree)) := do
  match ← peek with
  | none => return none
  | some t =>
    if t.isSeparator "\x7d" then return none
    else return some (← advancing statement).toList

def statements (statement : Parse (Option SyntaxTree)) : Parse (List SyntaxTree) := do
  return (← many (statementItem statement)).flatten

/-- A braced list of statements. -/
def block (statement : Parse (Option SyntaxTree)) : Parse SyntaxTree := do
  let line ← here
  let opener ← accept (·.isSeparator "\x7b")
  let body ← statements statement
  match ← accept (·.isSeparator "\x7d") with
  | some closer => return .node .block (leaves opener.toList ++ body ++ [.leaf closer])
  | none =>
    note line .unclosedBlock "Unclosed block"
    return .node .block (leaves opener.toList ++ body)

/-- The rules one level further in: statements, braced bodies unless no level is left for them,
and the levels left for groups. -/
structure Nested where
  statement : Parse (Option SyntaxTree)
  block : Option (Parse SyntaxTree)
  room : Nat

/-- The body of a control structure: a block, or one statement. -/
def body (inner : Nested) (keyword : String) : Parse (List SyntaxTree) := do
  match ← peek with
  | none =>
    note none .missingToken ("Missing body for '" ++ keyword ++ "'")
    return []
  | some t =>
    if t.isSeparator "\x7b" then
      match inner.block with
      | some block => return [← block]
      | none =>
        noteLimit
        return []
    else return (← inner.statement).toList

/-- The `else` of an `if` and its body. -/
def elseBranch (inner : Nested) (keyword : Token) : Parse (List SyntaxTree) := do
  if keyword.lexeme == "if" then
    match ← accept (·.isKeyword "else") with
    | some t => return .leaf t :: (← body inner "else")
    | none => return []
  else return []

/-- `if`, `while`, `for` or `switch` with a condition and a body. -/
def controlStructure (inner : Nested) : Parse (Option SyntaxTree) := do
  let some keyword ← next | return none
  let some opener ← expect (·.isSeparator "(") ("Expected '(' after '" ++ keyword.lexeme ++ "'")
    | return none
  let cond ← condition keyword
  let main ← body inner keyword.lexeme
  let other ← elseBranch inner keyword
  return some (.node .controlStructure (.leaf keyword :: .leaf opener :: cond ++ main ++ other))

/-- `do`, a body, `while`, a condition and a semicolon. -/
def doWhile (inner : Nested) : Parse (Option SyntaxTree) := do
  let some keyword ← next | return none
  let main ← body inner "do"
  match ← accept (·.isKeyword "while") with
  | none =>
    note (← here) .missingToken "Expected 'while' after 'do' body"
    return some (.node .controlStructure (.leaf keyword :: main))
  | some while_ =>
    let some opener ← expect (·.isSeparator "(") "Expected '(' after 'while'" | return none
    let cond ← condition while_
    let some semicolon ← expect (·.isSeparator ";") "Missing ';' after do-while" | return none
    return some (.node .controlStructure
      (.leaf keyword :: main ++ .leaf while_ :: .leaf opener :: cond ++ [.leaf semicolon]))

/-- Drops a token that starts no statement. -/
def skipUnhandled (t : Token) : Parse (Option SyntaxTree) := do
  note (some t.line) .skippedToken ("Skipping unhandled token as statement: " ++ t.describe)
  let _ ← next
  return none

/-- The construct that starts with the token `t`. -/
def construct (inner : Nested) (t : Token) : Parse (Option SyntaxTree) :=
  if t.isSeparator "\x7b" then return some (← block inner.statement)
  else if t.isSeparator ";" then emptyStatement
  else if t.kind = .keyword then
    if t.lexeme == "return" then returnStatement inner.room
    else if t.lexeme == "do" then doWhile inner
    else if t.lexeme == "break" || t.lexeme == "continue" || t.lexeme == "goto" then jumpStatement
    else if t.lexeme == "case" || t.lexeme == "default" then labelStatement
    else if Token.controlKeywords.contains t.lexeme then controlStructure inner
    else if t.isTypeKeyword then declaration inner.room
    else if t.startsExpression then expressionStatement inner.room
    else skipUnhandled t
  else if t.startsExpression then expressionStatement inner.room
  else skipUnhandled t

/-- A statement, with `room` levels left to open. Directives are dropped; past the last level one
token is dropped. -/
def statement : Nat → Parse (Option SyntaxTree)
  | 0 => do
    match ← peek with
    | none => return none
    | some t =>
      if t.isDirective then skipDirective
      else
        noteLimit
        let _ ← next
      return none
  | room + 1 => do
    match ← peek with
    | none => return none
    | some t =>
      if t.isDirective then
        skipDirective
        return none
      else
        let braced : Option (Parse SyntaxTree) :=
          match room with
          | 0 => none
          | deeper + 1 => some (block (statement deeper))
        let inner ← construct ⟨statement room, braced, room⟩ t
        return inner.map fun s => .node .statement [s]

end CAudit.Parse
