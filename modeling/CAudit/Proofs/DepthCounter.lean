import CAudit.Parse

/-! Reading with a counter. The rules of the grammar are told how many levels they may still open.
Here they share one counter of the open levels instead: it goes up where a level is entered and down
where it is left, on every way out of a rule, and the limit is noted once. A log keeps each value of
the counter, and its values before and after each rule. -/
namespace CAudit

namespace Counted

/-- The rules that the log names. -/
inductive Rule where
  | topLevelItem | function | typeSpec | parameters | statements | statement | block | declaration
  | initializerList | returnStatement | jumpStatement | labelStatement | controlStructure | doWhile
  | condition | body | expressionStatement | expression | group
  deriving DecidableEq, Repr

/-- A value that the counter was set to, or its values before and after a rule. -/
inductive Event where
  | counter (depth : Nat)
  | ran (rule : Rule) (before after : Nat)
  deriving DecidableEq, Repr

/-- The counter, whether the limit has been noted, and the log. -/
structure Meter where
  depth : Nat
  noted : Bool
  log : List Event
  deriving DecidableEq, Repr

end Counted

/-- A rule that uses the counter. -/
abbrev Counted := StateT Counted.Meter Parse

namespace Counted

open Parse

variable {α : Type}

def Meter.start : Meter := ⟨0, false, []⟩

def Meter.setDepth (m : Meter) (depth : Nat) : Meter :=
  { m with depth := depth, log := m.log ++ [.counter depth] }

/-- Enters a level unless the limit is reached. The first time it is, that is noted. -/
def enter : Counted Bool := fun m =>
  if m.depth < maxNesting then return (true, m.setDepth (m.depth + 1))
  else if m.noted then return (false, m)
  else do
    noteLimit
    return (false, { m with noted := true })

def leave : Counted Unit := fun m => return ((), m.setDepth (m.depth - 1))

/-- Runs a rule and logs the counter before and after it. -/
def logged (rule : Rule) (c : Counted α) : Counted α := fun m => do
  let (a, m') ← c m
  return (a, { m' with log := m'.log ++ [.ran rule m.depth m'.depth] })

def loop (c : Counted (Turn α)) (m : Meter) (ts : List Token) : Reply (Option (List α) × Meter) :=
  let r := c m ts
  match r.value.1 with
  | .stop => ⟨(some [], r.value.2), r.rest, r.notes, r.uses⟩
  | .abandon => ⟨(none, r.value.2), r.rest, r.notes, r.uses⟩
  | .more a =>
    if r.rest.length < ts.length then
      let s := loop c r.value.2 r.rest
      ⟨(s.value.1.map (a :: ·), s.value.2), s.rest, r.notes ++ s.notes, r.uses ++ s.uses⟩
    else ⟨(some [a], r.value.2), r.rest, r.notes, r.uses⟩
termination_by ts.length

def repeated (c : Counted (Turn α)) : Counted (Option (List α)) := loop c

def many (c : Counted (Option α)) : Counted (List α) := do
  let items ← repeated do
    match ← c with
    | some a => return .more a
    | none => return .stop
  return items.getD []

def advancing (c : Counted α) : Counted α := fun m ts =>
  let r := c m ts
  if r.rest.length < ts.length then r
  else
    let s := skipToken r.rest
    ⟨r.value, s.rest, r.notes ++ s.notes, r.uses ++ s.uses⟩

-- Rules that call each other take `fuel`, which bounds the recursion. As long as there is more of
-- it than levels are left it does not matter.

def groupItem (group : Counted (List SyntaxTree)) (closer : String) :
    Counted (Option (List SyntaxTree)) := do
  match ← peek with
  | none => return none
  | some t =>
    if t.isSeparator closer then return none
    else if t.opensGroup then return some (← group)
    else if t.isSeparator "," then operand
    else if t.endsExpression then return none
    else operand

def group : Nat → Counted (List SyntaxTree)
  | 0 => return []
  | fuel + 1 => logged .group do
    match ← next with
    | none => return []
    | some opener =>
      if ← enter then
        let closer := closerOf opener
        let inner ← many (groupItem (group fuel) closer)
        leave
        let opened : List SyntaxTree := [.leaf opener, .node .expression inner.flatten]
        match ← accept (·.isSeparator closer) with
        | some t => return opened ++ [.leaf t]
        | none =>
          note (some opener.line) .unclosedGroup (unclosedGroup closer)
          return opened
      else return [.leaf opener]

def expressionItem (fuel : Nat) : Counted (Option (List SyntaxTree)) := do
  match ← peek with
  | none => return none
  | some t =>
    if t.opensGroup then return some (← group fuel)
    else if t.endsExpression then return none
    else operand

def expressionItems (fuel : Nat) : Counted (List SyntaxTree) := logged .expression do
  return (← many (expressionItem fuel)).flatten

def expression (fuel : Nat) (c : Construct) : Counted SyntaxTree := do
  return .node c (← expressionItems fuel)

def arraySize (fuel : Nat) : Counted (Turn (List SyntaxTree)) := do
  match ← accept (·.isSeparator "[") with
  | none => return .stop
  | some opener =>
    let size ← expression fuel .arraySize
    match ← expect (·.isSeparator "]") "Missing ']' in array declaration" with
    | some closer => return .more [.leaf opener, size, .leaf closer]
    | none => return .abandon

def initializer (fuel : Nat) : Counted (List SyntaxTree) := do
  match ← accept (·.isOperator "=") with
  | none => return []
  | some assign =>
    if (← peek).any (·.isSeparator "\x7b") then
      return [.leaf assign, ← logged .initializerList initializerList]
    else return [.leaf assign, ← expression fuel .expression]

def declarator (fuel : Nat) : Counted (Option (List SyntaxTree)) := do
  let pointer ← stars
  let some name ← expect (·.isIdentifier) "Expected identifier in declaration" | return none
  let some sizes ← repeated (arraySize fuel) | return none
  return some (leaves pointer ++ .leaf name :: sizes.flatten ++ (← initializer fuel))

def nextDeclarator (fuel : Nat) : Counted (Turn (List SyntaxTree)) := do
  match ← accept (·.isSeparator ",") with
  | none => return .stop
  | some comma =>
    match ← declarator fuel with
    | some d => return .more (.leaf comma :: d)
    | none => return .abandon

def declaration (fuel : Nat) : Counted (Option SyntaxTree) := logged .declaration do
  let type ← logged .typeSpec typeSpec
  let some first ← declarator fuel | return none
  let some others ← repeated (nextDeclarator fuel) | return none
  let some semicolon ← expect (·.isSeparator ";") "Missing ';' in declaration" | return none
  return some (.node .declaration (leaves type ++ first ++ others.flatten ++ [.leaf semicolon]))

def returnStatement (fuel : Nat) : Counted (Option SyntaxTree) := logged .returnStatement do
  let some keyword ← next | return none
  let items ← expressionItems fuel
  let value : List SyntaxTree := if items.isEmpty then [] else [.node .expression items]
  let some semicolon ← expect (·.isSeparator ";") "Missing ';' after return statement"
    | return none
  return some (.node .returnStatement (.leaf keyword :: value ++ [.leaf semicolon]))

def nextExpression (fuel : Nat) : Counted (Option (List SyntaxTree)) := do
  match ← accept (·.isSeparator ",") with
  | none => return none
  | some comma => return some [.leaf comma, ← expression fuel .expression]

def expressionStatement (fuel : Nat) : Counted (Option SyntaxTree) :=
  logged .expressionStatement do
    let line ← here
    let first ← expression fuel .expression
    let others ← many (nextExpression fuel)
    match ← accept (·.isSeparator ";") with
    | some semicolon =>
      return some (.node .expressionStatement (first :: others.flatten ++ [.leaf semicolon]))
    | none =>
      note line .missingToken "Missing ';' in statement"
      return none

def statementItem (statement : Counted (Option SyntaxTree)) :
    Counted (Option (List SyntaxTree)) := do
  match ← peek with
  | none => return none
  | some t =>
    if t.isSeparator "\x7d" then return none
    else return some (← advancing statement).toList

def statements (statement : Counted (Option SyntaxTree)) : Counted (List SyntaxTree) :=
  logged .statements do return (← many (statementItem statement)).flatten

def block (statement : Counted (Option SyntaxTree)) : Counted SyntaxTree := logged .block do
  let line ← here
  let opener ← accept (·.isSeparator "\x7b")
  let body ← statements statement
  match ← accept (·.isSeparator "\x7d") with
  | some closer => return .node .block (leaves opener.toList ++ body ++ [.leaf closer])
  | none =>
    note line .unclosedBlock "Unclosed block"
    return .node .block (leaves opener.toList ++ body)

def body (statement : Counted (Option SyntaxTree)) (keyword : String) :
    Counted (List SyntaxTree) := logged .body do
  match ← peek with
  | none =>
    note none .missingToken ("Missing body for '" ++ keyword ++ "'")
    return []
  | some t =>
    if t.isSeparator "\x7b" then
      if ← enter then
        let b ← block statement
        leave
        return [b]
      else return []
    else return (← statement).toList

def elseBranch (statement : Counted (Option SyntaxTree)) (keyword : Token) :
    Counted (List SyntaxTree) := do
  if keyword.lexeme == "if" then
    match ← accept (·.isKeyword "else") with
    | some t => return .leaf t :: (← body statement "else")
    | none => return []
  else return []

def controlStructure (statement : Counted (Option SyntaxTree)) : Counted (Option SyntaxTree) :=
  logged .controlStructure do
    let some keyword ← next | return none
    let some opener ← expect (·.isSeparator "(") ("Expected '(' after '" ++ keyword.lexeme ++ "'")
      | return none
    let cond ← logged .condition (condition keyword)
    let main ← body statement keyword.lexeme
    let other ← elseBranch statement keyword
    return some (.node .controlStructure (.leaf keyword :: .leaf opener :: cond ++ main ++ other))

def doWhile (statement : Counted (Option SyntaxTree)) : Counted (Option SyntaxTree) :=
  logged .doWhile do
    let some keyword ← next | return none
    let main ← body statement "do"
    match ← accept (·.isKeyword "while") with
    | none =>
      note (← here) .missingToken "Expected 'while' after 'do' body"
      return some (.node .controlStructure (.leaf keyword :: main))
    | some while_ =>
      let some opener ← expect (·.isSeparator "(") "Expected '(' after 'while'" | return none
      let cond ← logged .condition (condition while_)
      let some semicolon ← expect (·.isSeparator ";") "Missing ';' after do-while" | return none
      return some (.node .controlStructure
        (.leaf keyword :: main ++ .leaf while_ :: .leaf opener :: cond ++ [.leaf semicolon]))

def construct (statement : Counted (Option SyntaxTree)) (fuel : Nat) (t : Token) :
    Counted (Option SyntaxTree) :=
  if t.isSeparator "\x7b" then return some (← block statement)
  else if t.isSeparator ";" then emptyStatement
  else if t.kind = .keyword then
    if t.lexeme == "return" then returnStatement fuel
    else if t.lexeme == "do" then doWhile statement
    else if t.lexeme == "break" || t.lexeme == "continue" || t.lexeme == "goto" then
      logged .jumpStatement jumpStatement
    else if t.lexeme == "case" || t.lexeme == "default" then logged .labelStatement labelStatement
    else if Token.controlKeywords.contains t.lexeme then controlStructure statement
    else if t.isTypeKeyword then declaration fuel
    else if t.startsExpression then expressionStatement fuel
    else skipUnhandled t
  else if t.startsExpression then expressionStatement fuel
  else skipUnhandled t

def statement : Nat → Counted (Option SyntaxTree)
  | 0 => return none
  | fuel + 1 => logged .statement do
    match ← peek with
    | none => return none
    | some t =>
      if t.isDirective then
        skipDirective
        return none
      else if ← enter then
        let inner ← construct (statement fuel) fuel t
        leave
        return inner.map fun s => .node .statement [s]
      else
        let _ ← next
        return none

def functionBody (fuel : Nat) : Counted (List SyntaxTree) := do
  let list ← statements (statement fuel)
  match ← accept (·.isSeparator "\x7d") with
  | some closer => return [.node .functionBody list, .leaf closer]
  | none =>
    note (← here) .unclosedBlock "Unclosed function body"
    return [.node .functionBody list]

def function (fuel : Nat) : Counted (Option SyntaxTree) := logged .function do
  let type ← logged .typeSpec typeSpec
  let some name ←
      expect (·.isIdentifier) "Invalid function definition: expected function name"
    | return none
  let some opener ← expect (·.isSeparator "(") "Expected '(' after function name" | return none
  let some params ← logged .parameters parameters | return none
  let head := leaves type ++ .leaf name :: .leaf opener :: params
  match ← accept (·.isSeparator ";") with
  | some semicolon => return some (.node .functionDeclaration (head ++ [.leaf semicolon]))
  | none =>
    let some brace ← expect (·.isSeparator "\x7b") "Expected '\x7b' to open function body"
      | return none
    return some (.node .functionDefinition (head ++ .leaf brace :: (← functionBody fuel)))

def external (fuel : Nat) (t : Token) : Counted (List SyntaxTree) := do
  if t.isTypeKeyword then return (← function fuel).toList
  else
    note (some t.line) .invalidTopLevel "Invalid function definition"
    return []

def topLevelItem (fuel : Nat) : Counted (Option (List SyntaxTree)) := logged .topLevelItem do
  match ← peek with
  | none => return none
  | some t =>
    if t.isDirective then
      skipDirective
      return some []
    else return some (← advancing (external fuel t))

def program (fuel : Nat) : Counted SyntaxTree := do
  return .node .program (← many (topLevelItem fuel)).flatten

/-- Reads tokens with a counter that starts at zero; `spare` is fuel beyond the limit. -/
def parseTokens (spare : Nat) (ts : List Token) : Outcome × Meter :=
  let r := program (maxNesting + 1 + spare) .start ts
  let last := ts.getLast?.map (·.line)
  (⟨r.notes.map (·.endingAt last),
    r.uses.filterMap fun t => InsecureCall.finding? t.lexeme t.line, r.value.1.toParseTree⟩,
    r.value.2)

end Counted

end CAudit
