import CAudit.Json.Writer

/-! YAML mappings of scalars and mappings, and the lines of a document. -/
namespace CAudit

namespace Yaml

/-- A scalar, plain or quoted, or a mapping in the order of the document. -/
inductive Node where
  | scalar (isPlain : Bool) (text : String)
  | mapping (entries : List (String × Node))
  deriving Repr

/-- What a key without a value has. -/
def Node.missing : Node := .scalar true ""

def isGap (c : Char) : Bool := c == ' ' || c == '\t'

/-- Whether a blank, a line break or the end of the text comes next. -/
def endsToken (cs : List Char) : Bool := cs.head?.all fun c => isGap c || c == '\n'

/-- Whether a mark of the start or the end of a document comes next. -/
def startsMark (cs : List Char) : Bool :=
  match cs with
  | '-' :: '-' :: '-' :: rest => endsToken rest
  | '.' :: '.' :: '.' :: rest => endsToken rest
  | _ => false

/-- The text from the next line with content on: its indentation and what stands there, or the
mark, if any, that ends the document. -/
inductive Line where
  | content (indent : Nat) (text : List Char)
  | boundary (text : List Char)
  deriving DecidableEq, Repr

/-- Passes over blank lines and comments. Tabs do not indent. -/
def nextLine (inComment : Bool) (indent : Nat) : List Char → Line
  | [] => .boundary []
  | c :: cs =>
    if c = '\n' then nextLine false 0 cs
    else if inComment then nextLine true indent cs
    else if c = ' ' then nextLine false (indent + 1) cs
    else if c = '#' then nextLine true indent cs
    else if indent = 0 && startsMark (c :: cs) then .boundary (c :: cs)
    else .content indent (c :: cs)

/-- The next line, if the rest of this one is blank or a comment. -/
def lineEnd (cs : List Char) : Option Line :=
  let rest := cs.dropWhile isGap
  if rest.head?.all fun c => c == '\n' || c == '#' then some (nextLine false 0 rest) else none

mutual

/-- Entries in block style, each level two spaces further in. -/
def entriesText (level : Nat) : List (String × Node) → List Char
  | [] => []
  | (key, v) :: rest =>
    List.replicate (2 * level) ' ' ++ key.toList ++ ':' :: valueText level v ++
      entriesText level rest

def valueText (level : Nat) : Node → List Char
  | .scalar true text => ' ' :: text.toList ++ ['\n']
  | .scalar false text => ' ' :: Json.stringText text ++ ['\n']
  | .mapping entries => '\n' :: entriesText (level + 1) entries

end

/-- A document with one entry a line. -/
def write (entries : List (String × Node)) : String := String.ofList (entriesText 0 entries)

end Yaml

end CAudit
