import CAudit.Token
import CAudit.Finding

/-! Tokens in JSON. -/
namespace CAudit.Token

def toJson (t : Token) : Json :=
  .object [("kind", .string t.kind.name), ("lexeme", .string t.lexeme), ("line", .nat t.line)]

/-- A token that is being read. -/
structure Draft where
  kind : Option Kind := none
  lexeme : Option String := none
  line : Option Nat := none

open Json.Reader in
/-- The shape of a token inside which `room` more arrays and objects may be opened. -/
def shape (room : Nat) : Shape Draft Token where
  fields :=
    [⟨"kind", (·.kind.isSome),
        fun d => do return { d with kind := some (← oneOf room Kind.ofName?) },
        fun _ => none⟩,
      ⟨"lexeme", (·.lexeme.isSome), fun d => do return { d with lexeme := some (← string) },
        fun _ => none⟩,
      ⟨"line", (·.line.isSome), fun d => do return { d with line := some (← natUpTo maxLine) },
        fun _ => none⟩]
  empty := {}
  finish d := do return ⟨← d.kind, ← d.lexeme, ← d.line⟩

/-- A token in JSON, with `room` more arrays and objects to open. -/
def read (room : Nat) : Json.Reader Token := Json.Reader.record room (shape (room - 1))

end CAudit.Token
