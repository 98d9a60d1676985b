import CAudit.Parse.Expression

/-! Types, declarations and the flat statements. -/
namespace CAudit.Parse

def leaves (ts : List Token) : List SyntaxTree := ts.map .leaf

/-- Type keywords. The state tells whether the last one takes a tag: an identifier there belongs to
the type. -/
def typeStep (tagged : Bool) (t : Token) : Option Bool :=
  if t.isTypeKeyword then some t.takesTag
  else if tagged && t.isIdentifier then some false
  else none

def stars : Parse (List Token) := spanWhile (·.isOperator "*")

/-- A type: keywords with their tags, then stars. -/
def typeSpec : Parse (List Token) := do
  let (words, _) ← spanFrom typeStep false
  return words ++ (← stars)

/-- One pair of brackets behind a declared name. -/
def arraySize (room : Nat) : Parse (Turn (List SyntaxTree)) := do
  match ← accept (·.isSeparator "[") with
  | none => return .stop
  | some opener =>
    let size ← expression room .arraySize
    match ← expect (·.isSeparator "]") "Missing ']' in array declaration" with
    | some closer => return .more [.leaf opener, size, .leaf closer]
    | none => return .abandon

/-- Braces of an initializer list: the depth while it is open, none once it is closed. -/
def initializerStep (depth : Option Nat) (t : Token) : Option (Option Nat) :=
  depth.bind fun d =>
    if t.isSeparator "\x7b" then some (some (d + 1))
    else if t.isSeparator "\x7d" then some (if d ≤ 1 then none else some (d - 1))
    else if t.isSeparator ";" || t.isDirective then none
    else some (some d)

/-- A braced initializer, taken flat up to the brace that balances its first one. -/
def initializerList : Parse SyntaxTree := do
  let line ← here
  let (ts, depth) ← spanFrom initializerStep (some 0)
  mention ts
  if depth.isSome then note line .unclosedBlock "Unclosed initializer list"
  return .node .initializerList (leaves ts)

/-- The value of a declared name, if it has one. -/
def initializer (room : Nat) : Parse (List SyntaxTree) := do
  match ← accept (·.isOperator "=") with
  | none => return []
  | some assign =>
    if (← peek).any (·.isSeparator "\x7b") then return [.leaf assign, ← initializerList]
    else return [.leaf assign, ← expression room .expression]

/-- A declared name with its stars, array sizes and value. -/
def declarator (room : Nat) : Parse (Option (List SyntaxTree)) := do
  let pointer ← stars
  let some name ← expect (·.isIdentifier) "Expected identifier in declaration" | return none
  let some sizes ← loop (arraySize room) | return none
  return some (leaves pointer ++ .leaf name :: sizes.flatten ++ (← initializer room))

/-- A comma and one more declared name. -/
def nextDeclarator (room : Nat) : Parse (Turn (List SyntaxTree)) := do
  match ← accept (·.isSeparator ",") with
  | none => return .stop
  | some comma =>
    match ← declarator room with
    | some d => return .more (.leaf comma :: d)
    | none => return .abandon

def declaration (room : Nat) : Parse (Option SyntaxTree) := do
  let type ← typeSpec
  let some first ← declarator room | return none
  let some others ← loop (nextDeclarator room) | return none
  let some semicolon ← expect (·.isSeparator ";") "Missing ';' in declaration" | return none
  return some (.node .declaration (leaves type ++ first ++ others.flatten ++ [.leaf semicolon]))

end CAudit.Parse
