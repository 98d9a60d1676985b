import CAudit.Finding

/-! Diagnostics: syntax problems that the parser recovered from. -/
namespace CAudit

namespace Diagnostic

inductive Kind where
  | missingToken | unclosedBlock | unclosedParameters | unclosedGroup | invalidTopLevel
  | skippedToken | skippedPreprocessor | nestingLimit
  deriving DecidableEq, Repr

namespace Kind

def all : List Kind :=
  [.missingToken, .unclosedBlock, .unclosedParameters, .unclosedGroup, .invalidTopLevel,
   .skippedToken, .skippedPreprocessor, .nestingLimit]

def name : Kind → String
  | .missingToken => "MissingToken"
  | .unclosedBlock => "UnclosedBlock"
  | .unclosedParameters => "UnclosedParameters"
  | .unclosedGroup => "UnclosedGroup"
  | .invalidTopLevel => "InvalidTopLevel"
  | .skippedToken => "SkippedToken"
  | .skippedPreprocessor => "SkippedPreprocessor"
  | .nestingLimit => "NestingLimit"

def ofName? (s : String) : Option Kind := all.find? (·.name == s)

end Kind

end Diagnostic

/-- A problem and its line; without a line it is at the end of the input. -/
structure Diagnostic where
  line : Option Nat
  kind : Diagnostic.Kind
  message : String
  deriving DecidableEq, Repr

namespace Diagnostic

/-- The diagnostic on one line. -/
def describe (d : Diagnostic) : String :=
  match d.line with
  | some n => n.repr ++ ": " ++ d.message
  | none => "EOF: " ++ d.message

/-- Gives a diagnostic at the end of the input the line where the input ends. -/
def endingAt (last : Option Nat) (d : Diagnostic) : Diagnostic := { d with line := d.line.or last }

/-- Keeps the first diagnostic of a kind and drops the later ones. -/
def onceOnly (k : Kind) : List Diagnostic → List Diagnostic
  | [] => []
  | d :: ds => if d.kind = k then d :: ds.filter (·.kind ≠ k) else d :: onceOnly k ds

def toJson (d : Diagnostic) : Json :=
  .object
    [("line", match d.line with
      | some n => .nat n
      | none => .null),
     ("kind", .string d.kind.name), ("message", .string d.message)]

/-- A diagnostic that is being read. -/
structure Draft where
  line : Option (Option Nat) := none
  kind : Option Kind := none
  message : Option String := none

open Json.Reader in
/-- The shape of a diagnostic inside which `room` more arrays and objects may be opened. -/
def shape (room : Nat) : Shape Draft Diagnostic where
  fields :=
    [⟨"line", (·.line.isSome), fun d => do
        return { d with line := some (← nullable (natUpTo maxLine)) }, fun _ => none⟩,
      ⟨"kind", (·.kind.isSome),
        fun d => do return { d with kind := some (← oneOf room Kind.ofName?) },
        fun _ => none⟩,
      ⟨"message", (·.message.isSome), fun d => do return { d with message := some (← string) },
        fun _ => none⟩]
  empty := {}
  finish d := do return ⟨d.line.join, ← d.kind, ← d.message⟩

/-- A diagnostic in JSON, with `room` more arrays and objects to open. -/
def read (room : Nat) : Json.Reader Diagnostic := Json.Reader.record room (shape (room - 1))

end Diagnostic

end CAudit
