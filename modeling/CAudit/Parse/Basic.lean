import CAudit.Token.Role
import CAudit.SyntaxTree
import CAudit.Diagnostic
import CAudit.Text.Blank

/-! Rules of the grammar as functions on the tokens ahead. A rule never fails: it gives a value and
the tokens behind it, and notes what it had to recover from. -/
namespace CAudit

/-- What a rule gives: its value, the tokens it left, its notes on recovered problems, and the
identifiers it met where an expression may call a function. -/
structure Reply (α : Type) where
  value : α
  rest : List Token
  notes : List Diagnostic
  uses : List Token

def Parse (α : Type) := List Token → Reply α

namespace Parse

variable {α β σ : Type}

def run (p : Parse α) (ts : List Token) : Reply α := p ts

/-- What both replies noted, with the value and the rest of the second. -/
def andThen (r : Reply α) (s : Reply β) : Reply β :=
  ⟨s.value, s.rest, r.notes ++ s.notes, r.uses ++ s.uses⟩

instance : Monad Parse where
  pure a := fun ts => ⟨a, ts, [], []⟩
  bind p f := fun ts =>
    let r := p ts
    andThen r (f r.value r.rest)

/-- The next token, left where it is. -/
def peek : Parse (Option Token) := fun ts => ⟨ts.head?, ts, [], []⟩

/-- The line of the next token; none at the end of the input. -/
def here : Parse (Option Nat) := fun ts => ⟨ts.head?.map (·.line), ts, [], []⟩

/-- Takes the next token. -/
def next : Parse (Option Token) := fun ts => ⟨ts.head?, ts.tail, [], []⟩

/-- Takes the next token if it passes the test. -/
def accept (test : Token → Bool) : Parse (Option Token)
  | [] => ⟨none, [], [], []⟩
  | t :: ts => if test t then ⟨some t, ts, [], []⟩ else ⟨none, t :: ts, [], []⟩

def note (line : Option Nat) (kind : Diagnostic.Kind) (message : String) : Parse Unit :=
  fun ts => ⟨(), ts, [⟨line, kind, message⟩], []⟩

/-- Takes a token that has to stand here, or notes that it is missing. -/
def expect (test : Token → Bool) (message : String) : Parse (Option Token) := do
  match ← accept test with
  | some t => return some t
  | none =>
    note (← here) .missingToken message
    return none

/-- Records the identifiers among tokens that stand where an expression may call a function. -/
def mention (us : List Token) : Parse Unit := fun ts => ⟨(), ts, [], us.filter (·.isIdentifier)⟩

/-- The run of tokens that `step` lets through, and the state after the last of them. -/
def spanFrom (step : σ → Token → Option σ) (s : σ) : Parse (List Token × σ)
  | [] => ⟨([], s), [], [], []⟩
  | t :: ts =>
    match step s t with
    | none => ⟨([], s), t :: ts, [], []⟩
    | some s' =>
      let r := spanFrom step s' ts
      ⟨(t :: r.value.1, r.value.2), r.rest, r.notes, r.uses⟩

/-- The run of tokens that pass a test. -/
def spanWhile (test : Token → Bool) : Parse (List Token) := do
  return (← spanFrom (fun () t => if test t then some () else none) ()).1

/-- How a repeated rule goes on: no further, with one more item, or giving up the whole. -/
inductive Turn (α : Type) where
  | stop
  | more (a : α)
  | abandon

/-- Repeats a rule until it stops, gives up or takes no token. -/
def loop (p : Parse (Turn α)) (ts : List Token) : Reply (Option (List α)) :=
  let r := p ts
  match r.value with
  | .stop => ⟨some [], r.rest, r.notes, r.uses⟩
  | .abandon => ⟨none, r.rest, r.notes, r.uses⟩
  | .more a =>
    if r.rest.length < ts.length then
      let s := loop p r.rest
      ⟨s.value.map (a :: ·), s.rest, r.notes ++ s.notes, r.uses ++ s.uses⟩
    else ⟨some [a], r.rest, r.notes, r.uses⟩
termination_by ts.length

/-- Repeats a rule until it gives nothing or takes no token. -/
def many (p : Parse (Option α)) : Parse (List α) := do
  let items ← loop do
    match ← p with
    | some a => return .more a
    | none => return .stop
  return items.getD []

/-- Drops a token that no rule knows. -/
def skipToken : Parse Unit := do
  if let some t ← next then
    note (some t.line) .skippedToken ("Skipping unrecognized token: " ++ t.describe)

/-- Runs a rule and drops one token if the rule took none. -/
def advancing (p : Parse α) : Parse α := fun ts =>
  let r := p ts
  if r.rest.length < ts.length then r
  else
    let s := skipToken r.rest
    ⟨r.value, s.rest, r.notes ++ s.notes, r.uses ++ s.uses⟩

/-- Drops a preprocessor directive. -/
def skipDirective : Parse Unit := do
  if let some t ← next then
    note (some t.line) .skippedPreprocessor
      ("Skipping preprocessor directive: " ++ Text.trimmed t.lexeme)

/-- How many blocks, statements and groups may be open at once. -/
def maxNesting : Nat := 128

/-- Notes that nesting goes deeper than the rules descend. -/
def noteLimit : Parse Unit := do
  note (← here) .nestingLimit
    ("Nesting deeper than " ++ maxNesting.repr ++ " levels is not descended")

end Parse

end CAudit
