import CAudit.Text.Blank
import CAudit.Text.Word

/-! Shapes looked for inside a line. A recogniser reads from the front of a text and takes as much
as it can at each step; a pattern finds the places where its recogniser succeeds. -/
namespace CAudit
open Text

/-- Reads a shape at the front of a text. -/
abbrev Recogniser := StateT (List Char) Option

namespace Recogniser

/-- The characters that pass a test, as many as there are. -/
def span (test : Char → Bool) : Recogniser (List Char) :=
  fun cs => some (cs.takeWhile test, cs.dropWhile test)

/-- One or more characters that pass a test. -/
def span1 (test : Char → Bool) : Recogniser (List Char) := do
  let run ← span test
  guard (!run.isEmpty)
  return run

def blanks : Recogniser Unit := do
  let _ ← span isBlank

/-- A whole word. -/
def word : Recogniser String := do return String.ofList (← span1 isWord)

/-- A word that starts with a letter or an underscore of ASCII. -/
def name : Recogniser String := fun cs =>
  if cs.head?.any isNameStart then word cs else none

def one (test : Char → Bool) : Recogniser Unit
  | [] => none
  | c :: cs => if test c then some ((), cs) else none

def symbol (c : Char) : Recogniser Unit := one (· == c)

/-- A word of the list. -/
def wordOf (words : List String) : Recogniser Unit := do
  guard (words.contains (← word))

/-- A call of one of the functions, through its opening parenthesis. -/
def callOf (functions : List String) : Recogniser Unit := do
  wordOf functions
  blanks
  symbol '('

/-- A text of at least one character in front of a closing bracket. -/
def enclosed (closer : Char) : Recogniser String := do
  let inside ← span1 (· != closer)
  symbol closer
  return String.ofList inside

/-- ASCII letters in either case. -/
def anyCase : List Char → Recogniser Unit
  | [] => return ()
  | c :: cs => do
    one fun d => d == c || d == c.toUpper
    anyCase cs

end Recogniser

/-- A recogniser to look for anywhere in a text, or only where no word is under way. -/
structure Pattern (α : Type) where
  atWordStart : Bool
  shape : Recogniser α

namespace Pattern

variable {α : Type}

/-- What the pattern reads at one place, `inWord` telling whether a word character stands before
it. -/
def readAt (p : Pattern α) (inWord : Bool) (cs : List Char) : Option (α × List Char) :=
  if p.atWordStart && inWord then none else p.shape cs

/-- Whether a word character ends the text taken from `cs` when `rest` is left. -/
def takenWord (cs rest : List Char) : Bool :=
  (cs.take (cs.length - rest.length)).getLast?.any isWord

/-- What the pattern reads from left to right, each match behind the one before. -/
def matchesFrom (p : Pattern α) (inWord : Bool) (cs : List Char) : List α :=
  match cs with
  | [] => []
  | c :: tail =>
    match p.readAt inWord (c :: tail) with
    | none => p.matchesFrom (isWord c) tail
    | some (a, rest) =>
      if rest.length < (c :: tail).length then
        a :: p.matchesFrom (takenWord (c :: tail) rest) rest
      else a :: p.matchesFrom (isWord c) tail
termination_by cs.length
decreasing_by
  · exact Nat.lt_succ_self _
  · assumption
  · exact Nat.lt_succ_self _

def occurrences (p : Pattern α) (text : String) : List α := p.matchesFrom false text.toList

def occursIn (p : Pattern α) (text : String) : Bool := !(p.occurrences text).isEmpty

end Pattern

/-- The words of a text. -/
def wordsOf (text : String) : List String := Pattern.occurrences ⟨false, Recogniser.word⟩ text

end CAudit
