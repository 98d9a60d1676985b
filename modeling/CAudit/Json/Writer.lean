import CAudit.Json

/-! JSON text: on one line without blanks, or indented by two spaces a level. -/
namespace CAudit.Json

def hexDigit (n : Nat) : Char := (Nat.digitChar n)

/-- One character of a string literal. Only quotes, backslashes and controls are escaped. -/
def escapeChar (c : Char) : List Char :=
  if c == '"' then ['\\', '"']
  else if c == '\\' then ['\\', '\\']
  else if 0x20 ≤ c.toNat then [c]
  else if c.toNat == 0x8 then ['\\', 'b']
  else if c.toNat == 0x9 then ['\\', 't']
  else if c.toNat == 0xa then ['\\', 'n']
  else if c.toNat == 0xc then ['\\', 'f']
  else if c.toNat == 0xd then ['\\', 'r']
  else ['\\', 'u', '0', '0', hexDigit (c.toNat / 16), hexDigit (c.toNat % 16)]

def stringText (s : String) : List Char := '"' :: s.toList.flatMap escapeChar ++ ['"']

def natText (n : Nat) : List Char := Nat.toDigits 10 n

def numberText : Number → List Char
  | .nat n => natText n
  | .negative n => '-' :: natText n
  | .float x => x.toString.toList

mutual

def compactText : Json → List Char
  | .null => "null".toList
  | .bool b => (if b then "true" else "false").toList
  | .number n => numberText n
  | .string s => stringText s
  | .array items => '[' :: compactItems items ++ [']']
  | .object members => '{' :: compactMembers members ++ ['}']

/-- Items with a comma between each two. -/
def compactItems : List Json → List Char
  | [] => []
  | [v] => compactText v
  | v :: vs => compactText v ++ ',' :: compactItems vs

def compactMembers : List (String × Json) → List Char
  | [] => []
  | [(k, v)] => stringText k ++ ':' :: compactText v
  | (k, v) :: ms => stringText k ++ ':' :: compactText v ++ ',' :: compactMembers ms

end

/-- A new line at a level of indentation. -/
def newline (level : Nat) : List Char := '\n' :: List.replicate (2 * level) ' '

mutual

def prettyText (level : Nat) : Json → List Char
  | .null => "null".toList
  | .bool b => (if b then "true" else "false").toList
  | .number n => numberText n
  | .string s => stringText s
  | .array [] => ['[', ']']
  | .array (v :: vs) => '[' :: prettyItems (level + 1) (v :: vs) ++ newline level ++ [']']
  | .object [] => ['{', '}']
  | .object (m :: ms) => '{' :: prettyMembers (level + 1) (m :: ms) ++ newline level ++ ['}']

def prettyItems (level : Nat) : List Json → List Char
  | [] => []
  | [v] => newline level ++ prettyText level v
  | v :: vs => newline level ++ prettyText level v ++ ',' :: prettyItems level vs

def prettyMembers (level : Nat) : List (String × Json) → List Char
  | [] => []
  | [(k, v)] => newline level ++ stringText k ++ ':' :: ' ' :: prettyText level v
  | (k, v) :: ms =>
    newline level ++ stringText k ++ ':' :: ' ' :: prettyText level v ++
      ',' :: prettyMembers level ms

end

/-- The value on one line. -/
def compact (v : Json) : String := String.ofList (compactText v)

/-- The value with one item or member a line. -/
def pretty (v : Json) : String := String.ofList (prettyText 0 v)

end CAudit.Json
