/-! Lines of a text, numbered lines, and the window of lines around one of them. -/
namespace CAudit.Text

/-- Puts a character in front of the first piece, unless it ends a line of its own. -/
def consPiece (c : Char) (ps : List (List Char)) : List (List Char) :=
  if c = '\n' then ['\n'] :: ps
  else
    match ps with
    | [] => [[c]]
    | p :: ps => (c :: p) :: ps

/-- The lines with the newline that ends each of them. -/
def pieces (cs : List Char) : List (List Char) := cs.foldr consPiece []

/-- A line without its newline and without the carriage return before that newline. -/
def lineText (piece : List Char) : List Char :=
  match piece.reverse with
  | '\n' :: '\r' :: r => r.reverse
  | '\n' :: r => r.reverse
  | _ => piece

def linesOf (cs : List Char) : List (List Char) := (pieces cs).map lineText

/-- The lines of a text. A text that ends in a newline has no empty last line. -/
def lines (s : String) : List String := (linesOf s.toList).map String.ofList

/-- The text with every line behind its number, counted from one. -/
def numbered (s : String) : String :=
  "\n".intercalate (((lines s).zipIdx 1).map fun (line, n) => n.repr ++ ": " ++ line)

/-- The first line of the window and the line after its last one, counted from zero. -/
def windowBounds (index radius count : Nat) : Nat × Nat :=
  (index - radius, min (index + radius + 1) count)

/-- The items at most `radius` places away from `index`. -/
def window {α : Type} (index radius : Nat) (xs : List α) : List α :=
  let b := windowBounds index radius xs.length
  (xs.take b.2).drop b.1

end CAudit.Text
