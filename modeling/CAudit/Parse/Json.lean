import CAudit.Parse

/-! What reading a source gives, in JSON. -/
namespace CAudit.Outcome

def toJson (o : Outcome) : Json :=
  .object
    [("warnings", .array (o.warnings.map (·.toJson))),
     ("insecure_findings", .array (o.findings.map (·.toJson))), ("parse_tree", o.tree.toJson)]

/-- An outcome that is being read. -/
structure Draft where
  warnings : Option (List Diagnostic) := none
  findings : Option (List Finding) := none
  tree : Option ParseTree := none

open Json.Reader in
/-- The shape of an outcome inside which `room` more arrays and objects may be opened. -/
def shape (room : Nat) : Shape Draft Outcome where
  fields :=
    [⟨"warnings", (·.warnings.isSome),
        fun d => do return { d with warnings := some (← list room (Diagnostic.read (room - 1))) },
        fun _ => none⟩,
      ⟨"insecure_findings", (·.findings.isSome),
        fun d => do return { d with findings := some (← list room (Finding.read (room - 1))) },
        fun _ => none⟩,
      ⟨"parse_tree", (·.tree.isSome),
        fun d => do return { d with tree := some (← ParseTree.read room) }, fun _ => none⟩]
  empty := {}
  finish d := do return ⟨← d.warnings, ← d.findings, ← d.tree⟩

/-- An outcome in JSON, with `room` more arrays and objects to open. -/
def read (room : Nat) : Json.Reader Outcome := Json.Reader.record room (shape (room - 1))

end CAudit.Outcome
