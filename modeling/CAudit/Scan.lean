import CAudit.Lexeme

/-! The scan of a source: one lexeme after the other, none of the text lost. -/
namespace CAudit

/-- A place in a source: the text ahead, the line, and the number of bytes passed. -/
structure Cursor where
  rest : List Char
  line : Nat
  offset : Nat
  deriving DecidableEq, Repr

namespace Cursor

def start (source : String) : Cursor := ⟨source.toList, 1, 0⟩

def byteLength (cs : List Char) : Nat := (String.ofList cs).utf8ByteSize

def advance (c : Cursor) (n : Nat) : Cursor :=
  let lexeme := c.rest.take n
  ⟨c.rest.drop n, c.line + lexeme.count '\n', c.offset + byteLength lexeme⟩

/-- The token at the cursor and the cursor behind it. -/
def next? (c : Cursor) : Option (Token × Cursor) :=
  if c.rest.isEmpty then none
  else
    let k := Lexeme.classify c.rest
    some (⟨k.1, String.ofList (c.rest.take k.2), c.line⟩, c.advance k.2)

theorem next?_rest_lt {c d : Cursor} {t : Token} (h : c.next? = some (t, d)) :
    d.rest.length < c.rest.length := by
  unfold next? at h
  split at h
  · simp at h
  · next hne =>
    simp only [Option.some.injEq, Prod.mk.injEq] at h
    obtain ⟨_, rfl⟩ := h
    have hpos := Lexeme.classify_pos c.rest
    have hlen : 0 < c.rest.length := by
      cases hr : c.rest with
      | nil => simp [hr] at hne
      | cons => simp
    simp only [advance, List.length_drop]
    omega

/-- All tokens from the cursor on. -/
def tokens (c : Cursor) : List Token :=
  match _h : c.next? with
  | none => []
  | some (t, d) => t :: d.tokens
termination_by c.rest.length
decreasing_by exact next?_rest_lt (by assumption)

/-- The tokens and offsets of the next `n` steps; past the end a step gives no token. -/
def steps (c : Cursor) : Nat → List (Option Token × Nat)
  | 0 => []
  | n + 1 =>
    match c.next? with
    | none => (none, c.offset) :: c.steps n
    | some (t, d) => (some t, d.offset) :: d.steps n

end Cursor

/-- Every lexeme of the source, blanks and comments among them. -/
def scan (source : String) : List Token := (Cursor.start source).tokens

def dropTrivia (ts : List Token) : List Token := ts.filter fun t => !t.kind.isTrivia

/-- The tokens that the grammar reads. -/
def tokenize (source : String) : List Token := dropTrivia (scan source)

end CAudit
