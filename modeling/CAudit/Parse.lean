import CAudit.Parse.Statement
import CAudit.InsecureCall
import CAudit.Scan

/-! Whole sources: function definitions and declarations, and what reading them gives. -/
namespace CAudit

namespace Parse

/-- Parentheses of a parameter list: the depth of those open inside it. -/
def parameterStep (depth : Nat) (t : Token) : Option Nat :=
  if t.isSeparator ")" then if depth = 0 then none else some (depth - 1)
  else if t.isSeparator "(" then some (depth + 1)
  else if t.isSeparator "\x7b" then none
  else some depth

/-- The parameters and their closing parenthesis. A brace in its place is recovered from; the end
of the input is not. -/
def parameters : Parse (Option (List SyntaxTree)) := do
  let (ts, _) ← spanFrom parameterStep 0
  let list : SyntaxTree := .node .parameters (leaves ts)
  match ← accept (·.isSeparator ")") with
  | some closer => return some [list, .leaf closer]
  | none =>
    match ← peek with
    | none =>
      note none .unclosedParameters "Unclosed function parameters"
      return none
    | some t =>
      note (some t.line) .unclosedParameters
        "Unclosed function parameters: expected ')' before '\x7b'"
      return some [list]

/-- The body of a function and the brace that closes it. -/
def functionBody : Parse (List SyntaxTree) := do
  let list ← statements (statement maxNesting)
  match ← accept (·.isSeparator "\x7d") with
  | some closer => return [.node .functionBody list, .leaf closer]
  | none =>
    note (← here) .unclosedBlock "Unclosed function body"
    return [.node .functionBody list]

/-- A function with a body, or a prototype that ends in a semicolon. -/
def function : Parse (Option SyntaxTree) := do
  let type ← typeSpec
  let some name ←
      expect (·.isIdentifier) "Invalid function definition: expected function name"
    | return none
  let some opener ← expect (·.isSeparator "(") "Expected '(' after function name" | return none
  let some params ← parameters | return none
  let head := leaves type ++ .leaf name :: .leaf opener :: params
  match ← accept (·.isSeparator ";") with
  | some semicolon => return some (.node .functionDeclaration (head ++ [.leaf semicolon]))
  | none =>
    let some brace ← expect (·.isSeparator "\x7b") "Expected '\x7b' to open function body"
      | return none
    return some (.node .functionDefinition (head ++ .leaf brace :: (← functionBody)))

/-- What starts with the token `t` outside all functions. -/
def external (t : Token) : Parse (List SyntaxTree) := do
  if t.isTypeKeyword then return (← function).toList
  else
    note (some t.line) .invalidTopLevel "Invalid function definition"
    return []

def topLevelItem : Parse (Option (List SyntaxTree)) := do
  match ← peek with
  | none => return none
  | some t =>
    if t.isDirective then
      skipDirective
      return some []
    else return some (← advancing (external t))

def program : Parse SyntaxTree := do
  return .node .program (← many topLevelItem).flatten

end Parse

/-- What reading a source gives: recovered problems in their order, insecure calls in the order of
the source, and the tree. -/
structure Outcome where
  warnings : List Diagnostic
  findings : List Finding
  tree : ParseTree

namespace Outcome

def ofReply (last : Option Nat) (r : Reply SyntaxTree) : Outcome where
  warnings := Diagnostic.onceOnly .nestingLimit (r.notes.map (·.endingAt last))
  findings := r.uses.filterMap fun t => InsecureCall.finding? t.lexeme t.line
  tree := r.value.toParseTree

end Outcome

/-- Reads tokens without blanks and comments. -/
def parseTokens (ts : List Token) : Outcome :=
  Outcome.ofReply (ts.getLast?.map (·.line)) (Parse.program ts)

/-- Reads a source. -/
def parseSource (source : String) : Outcome := parseTokens (tokenize source)

/-- Why a token list from outside is refused. -/
inductive TokenFault where
  | lineZero (index : Nat) (lexeme : String)
  | lineDecreases (index : Nat) (lexeme : String) (line previous : Nat)
  deriving DecidableEq, Repr

def TokenFault.message : TokenFault → String
  | .lineZero index lexeme =>
    "token " ++ index.repr ++ " (" ++ Text.quoted lexeme ++ ") has line 0; lines are 1-based"
  | .lineDecreases index lexeme line previous =>
    "token " ++ index.repr ++ " (" ++ Text.quoted lexeme ++ ") is on line " ++ line.repr ++
      " after a token on line " ++ previous.repr

/-- The first token whose line is zero or before the line of the token in front of it. -/
def tokenFault? (index previous : Nat) : List Token → Option TokenFault
  | [] => none
  | t :: ts =>
    if t.line = 0 then some (.lineZero index t.lexeme)
    else if t.line < previous then some (.lineDecreases index t.lexeme t.line previous)
    else tokenFault? (index + 1) t.line ts

/-- Reads a token list from outside: blanks and comments are dropped, and lines must start at one
and not decrease. -/
def parseSupplied (ts : List Token) : Except TokenFault Outcome :=
  let ts := dropTrivia ts
  match tokenFault? 0 1 ts with
  | some e => .error e
  | none => .ok (parseTokens ts)

end CAudit
