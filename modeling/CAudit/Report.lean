import CAudit.Diagnostic
import CAudit.ParseTree

/-! Reports: what all detectors found in a source, as text or as JSON. -/
namespace CAudit

structure Report where
  warnings : List Diagnostic
  findings : List Finding
  tree : ParseTree
  isSafe : Bool

namespace Report

/-- How many findings have each severity, the gravest first. -/
def counts (r : Report) : List (Severity × Nat) :=
  Severity.all.map fun s => (s, r.findings.countP fun f => decide (f.severity = s))

/-- The findings of one detector. -/
def findingsFrom (r : Report) (tag : String) : List Finding := r.findings.filter (·.tag == tag)

/-- Said whenever findings about arithmetic are shown. -/
def disclaimer : String :=
  "Note: arithmetic findings come from a best-effort text heuristic without data-flow analysis; " ++
    "review them before acting."

/-- A finding and what is known about it, one line each. -/
def findingLines (f : Finding) : List String :=
  [f.describe ++ " [" ++ f.tag ++ "]"] ++
    (if f.explanation.isEmpty then [] else ["    " ++ f.explanation]) ++
    (if f.hasSuggestion then ["    Suggestion: " ++ f.suggestion] else [])

def headLines (r : Report) (file : String) : List String :=
  let counts := ", ".intercalate (r.counts.map fun (s, n) => s.name ++ ": " ++ n.repr)
  ["SafeCompile report for " ++ file,
   "Findings: " ++ r.findings.length.repr ++ " (" ++ counts ++ ")",
   "Overall: " ++ if r.isSafe then "SAFE" else "ISSUES FOUND"]

/-- A part of the report behind an empty line, unless there is nothing to say. -/
def part (lines : List String) : List String := if lines.isEmpty then [] else "" :: lines

def warningLines (r : Report) : List String :=
  if r.warnings.isEmpty then []
  else
    ("Parser warnings (" ++ r.warnings.length.repr ++ "):") ::
      r.warnings.map fun d => "  " ++ d.describe

/-- The report for readers. -/
def text (r : Report) (file : String) : String :=
  let notes := if (r.findingsFrom Finding.arithmeticTag).isEmpty then [] else [disclaimer]
  let lines := r.headLines file ++ part (r.findings.flatMap findingLines) ++
    part r.warningLines ++ part notes
  String.join (lines.map (· ++ "\n"))

def toJson (r : Report) : Json :=
  .object
    [("warnings", .array (r.warnings.map (·.toJson))),
     ("findings", .array (r.findings.map (·.toJson))), ("parse_tree", r.tree.toJson),
     ("overall_safe", .bool r.isSafe)]

inductive Format where
  | text | json
  deriving DecidableEq, Repr

def Format.name : Format → String
  | .text => "text"
  | .json => "json"

/-- The format with exactly this name. -/
def Format.ofName? (s : String) : Option Format := [Format.text, .json].find? (·.name == s)

def render (r : Report) (format : Format) (file : String) : String :=
  match format with
  | .text => r.text file
  | .json => r.toJson.pretty

/-- A report that is being read. -/
structure Draft where
  warnings : Option (List Diagnostic) := none
  findings : Option (List Finding) := none
  tree : Option ParseTree := none
  isSafe : Option Bool := none

open Json.Reader in
/-- The shape of a report inside which `room` more arrays and objects may be opened. -/
def shape (room : Nat) : Shape Draft Report where
  fields :=
    [⟨"warnings", (·.warnings.isSome),
        fun d => do return { d with warnings := some (← list room (Diagnostic.read (room - 1))) },
        fun _ => none⟩,
      ⟨"findings", (·.findings.isSome),
        fun d => do return { d with findings := some (← list room (Finding.read (room - 1))) },
        fun _ => none⟩,
      ⟨"parse_tree", (·.tree.isSome),
        fun d => do return { d with tree := some (← ParseTree.read room) }, fun _ => none⟩,
      ⟨"overall_safe", (·.isSafe.isSome), fun d => do return { d with isSafe := some (← bool) },
        fun _ => none⟩]
  empty := {}
  finish d := do return ⟨← d.warnings, ← d.findings, ← d.tree, ← d.isSafe⟩

/-- A report in JSON, with `room` more arrays and objects to open. -/
def read (room : Nat) : Json.Reader Report := Json.Reader.record room (shape (room - 1))

end Report

end CAudit
