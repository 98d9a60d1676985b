import CAudit.Finding
import CAudit.Taint
import CAudit.Text.Lines

/-! Arithmetic without a bounds check nearby. The search works on lines alone: a comparison
anywhere in the window around a line counts as a check. -/
namespace CAudit

namespace Arithmetic
open Recogniser

/-- The shapes of risky operations. -/
inductive Operation where
  | assignment | compound | indexing | allocation
  deriving DecidableEq, Repr

namespace Operation

/-- The operations in the order in which a line is searched for them. -/
def all : List Operation := [.assignment, .compound, .indexing, .allocation]

def name : Operation → String
  | .assignment => "Arithmetic"
  | .compound => "Compound Arithmetic"
  | .indexing => "Array Indexing Arithmetic"
  | .allocation => "Allocation Size Arithmetic"

def title (o : Operation) : String := "Integer Overflow Risk in " ++ o.name

def isOperator (c : Char) : Bool := c == '-' || c == '+' || c == '*' || c == '/'

/-- How an operation is written, and the texts in it that may name outside input. -/
def pattern : Operation → Pattern (List String)
  | .assignment =>
    { atWordStart := false
      shape := do
        let target ← word
        blanks; symbol '='; blanks
        let left ← word
        blanks; one isOperator; blanks
        let right ← word
        blanks; symbol ';'
        return [target, left, right] }
  | .compound =>
    { atWordStart := false
      shape := do
        let target ← word
        blanks; one isOperator; symbol '='; blanks
        let operand ← word
        blanks; symbol ';'
        return [target, operand] }
  | .indexing =>
    { atWordStart := false
      shape := do
        let _ ← word
        symbol '['
        return [← enclosed ']'] }
  | .allocation =>
    { atWordStart := true
      shape := do
        callOf ["malloc", "calloc", "realloc"]
        return [← enclosed ')'] }

end Operation

def cwe : String := "CWE-190"

/-- How many lines on each side of an operation are searched for a check, unless told otherwise. -/
def defaultRadius : Nat := 2

def suggestion : String :=
  "Validate inputs and add bounds checking before the operation. " ++
    "Example: if (a > INT_MAX - b) \x7b /* handle overflow */ \x7d."

def checkPatterns : List (Pattern Unit) :=
  [⟨false, do
      anyCase ['i', 'f']
      blanks
      symbol '('
      let rest ← span fun _ => true
      guard (rest.any fun c => c == '<' || c == '>')⟩,
   ⟨false, anyCase "int_max".toList⟩,
   ⟨false, anyCase "int_min".toList⟩]

/-- A comparison behind `if (`, or a limit of the integers, in any letter case. -/
def hasCheck (line : String) : Bool := checkPatterns.any (·.occursIn line)

/-- Whether a line in the window has a check. -/
def isChecked (radius : Nat) (lines : List String) (index : Nat) : Bool :=
  (Text.window index radius lines).any hasCheck

/-- The finding for an operation; outside input makes it graver. Lines past the last number count
as that number. -/
def finding (o : Operation) (line : Nat) (fromInput : Bool) : Finding where
  title := o.title
  line := min line maxLine
  severity := if fromInput then .high else .medium
  explanation :=
    "Arithmetic operation without explicit bounds checking detected. " ++
      (if fromInput then "It involves user-controlled data, increasing risk. " else "") ++
      "This is a best-effort text heuristic without data-flow analysis."
  suggestion := suggestion
  tag := Finding.arithmeticTag
  cwe := some cwe

/-- Whether one of the words in some texts is tainted. -/
def namesInput (tainted texts : List String) : Bool :=
  texts.any fun text => (wordsOf text).any fun w => tainted.contains w

/-- The operations on a line, checked or not. -/
def lineFindings (tainted : List String) (line : String) (number : Nat) : List Finding :=
  Operation.all.flatMap fun o =>
    (o.pattern.occurrences line).map fun texts => finding o number (namesInput tainted texts)

/-- The unchecked operations of a source, line by line. -/
def scan (radius : Nat) (source : String) : List Finding :=
  let lines := Text.lines source
  let tainted := Taint.names lines
  lines.zipIdx.flatMap fun (line, index) =>
    if isChecked radius lines index then [] else lineFindings tainted line (index + 1)

end Arithmetic

end CAudit
