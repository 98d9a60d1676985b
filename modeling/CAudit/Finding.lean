import CAudit.Severity
import CAudit.Json.Writer
import CAudit.Json.Record

/-! Findings: what every detector reports. -/
namespace CAudit

/-- The largest line number that a finding, a token or a diagnostic can carry. -/
def maxLine : Nat := 0xffffffff

structure Finding where
  title : String
  line : Nat
  severity : Severity
  explanation : String
  suggestion : String
  tag : String
  cwe : Option String
  deriving DecidableEq, Repr

namespace Finding

/-- The tags of the built-in detectors. -/
def parserTag : String := "parser"

def arithmeticTag : String := "arithmetic"

def patternTag : String := "pattern"

/-- Whether a suggestion with more than blanks is attached. -/
def hasSuggestion (f : Finding) : Bool := !(Text.trim f.suggestion.toList).isEmpty

/-- Findings with the same key are about the same thing. -/
def key (f : Finding) : Nat × String := (f.line, Text.lowercase f.title)

/-- The finding on one line. -/
def describe (f : Finding) : String :=
  "[" ++ f.severity.name ++ "] line " ++ f.line.repr ++ ": " ++ f.title ++
    match f.cwe with
    | some c => " (" ++ c ++ ")"
    | none => ""

/-- The JSON form of a finding; a missing weakness number is left out. -/
def toJson (f : Finding) : Json :=
  .object
    ([("title", .string f.title), ("line_number", .nat f.line),
      ("severity", .string f.severity.name), ("explanation", .string f.explanation),
      ("suggestion", .string f.suggestion), ("source_tag", .string f.tag)] ++
      (f.cwe.map fun c => ("cwe_id", Json.string c)).toList)

/-- A finding that is being read. -/
structure Draft where
  title : Option String := none
  line : Option Nat := none
  severity : Option Severity := none
  explanation : Option String := none
  suggestion : Option String := none
  tag : Option String := none
  cwe : Option (Option String) := none

open Json.Reader in
/-- The shape of a finding inside which `room` more arrays and objects may be opened. -/
def shape (room : Nat) : Shape Draft Finding where
  fields :=
    [⟨"title", (·.title.isSome), fun d => do return { d with title := some (← string) },
        fun _ => none⟩,
      ⟨"line_number", (·.line.isSome),
        fun d => do return { d with line := some (← natUpTo maxLine) },
        fun _ => none⟩,
      ⟨"severity", (·.severity.isSome),
        fun d => do return { d with severity := some (← oneOf room Severity.ofName?) },
        fun _ => none⟩,
      ⟨"explanation", (·.explanation.isSome),
        fun d => do return { d with explanation := some (← string) }, some⟩,
      ⟨"suggestion", (·.suggestion.isSome),
        fun d => do return { d with suggestion := some (← string) }, some⟩,
      ⟨"source_tag", (·.tag.isSome), fun d => do return { d with tag := some (← string) }, some⟩,
      ⟨"cwe_id", (·.cwe.isSome), fun d => do return { d with cwe := some (← nullable string) },
        some⟩]
  empty := {}
  finish d := do
    return ⟨← d.title, ← d.line, ← d.severity, d.explanation.getD "", d.suggestion.getD "",
      d.tag.getD "", d.cwe.join⟩

/-- A finding in JSON, with `room` more arrays and objects to open. -/
def read (room : Nat) : Json.Reader Finding := Json.Reader.record room (shape (room - 1))

end Finding

end CAudit
