import CAudit.Yaml
import CAudit.Recogniser
import CAudit.Json.Reader

/-! Plain and quoted scalars. Scalars in block style, behind `|` or `>`, are refused, and so are
anchors, aliases and tags: the characters that they begin with begin no plain scalar. -/
namespace CAudit.Yaml
open Recogniser

/-- Where a node stands: between braces or not, and how far its further lines are indented at
least. -/
structure Place where
  inFlow : Bool
  least : Nat
  deriving DecidableEq, Repr

/-- Line breaks inside a scalar: one is a space, and of several the first is dropped. -/
def foldBreaks (breaks : Nat) : List Char :=
  if breaks = 1 then [' '] else List.replicate (breaks - 1) '\n'

/-- Marks of the flow style. -/
def isFlowMark (c : Char) : Bool := [',', '[', ']', '{', '}'].contains c

/-- Characters that no plain scalar starts with. -/
def indicators : List Char :=
  [',', '[', ']', '{', '}', '#', '&', '*', '!', '|', '>', '\'', '"', '%', '@', '\x60']

def startsPlain (place : Place) : List Char → Bool
  | [] => false
  | c :: cs =>
    if c = '-' then !endsToken cs
    else if c = '?' || c = ':' then !place.inFlow && !endsToken cs
    else !isGap c && c != '\n' && !indicators.contains c

/-- The part of a plain scalar on one line, with the blanks behind it. -/
def plainLine (place : Place) (afterGap : Bool) : List Char → Option (List Char × List Char)
  | [] => some ([], [])
  | c :: cs =>
    if c = '\n' || (c = '#' && afterGap) || (c = ':' && endsToken cs) ||
        (place.inFlow && isFlowMark c) then
      some ([], c :: cs)
    else if place.inFlow && c = ':' && cs.head?.any fun d => d == '?' || isFlowMark d then none
    else (plainLine place (isGap c) cs).map fun (text, rest) => (c :: text, rest)

def trimGaps (cs : List Char) : List Char := (cs.reverse.dropWhile isGap).reverse

/-- The line breaks in front of further text, and its column. A tab may not stand before the least
indentation. -/
def breaksBelow (least breaks column : Nat) : List Char → Option (Nat × Nat × List Char)
  | [] => some (breaks, column, [])
  | c :: cs =>
    if c = '\n' then breaksBelow least (breaks + 1) 0 cs
    else if c = ' ' then breaksBelow least breaks (column + 1) cs
    else if c = '\t' then
      if column < least then none else breaksBelow least breaks (column + 1) cs
    else some (breaks, column, c :: cs)

/-- Whether a scalar may go on with a text in some column. -/
def Place.admits (place : Place) (column : Nat) (cs : List Char) : Bool :=
  (place.inFlow || place.least ≤ column) && !(column = 0 && startsMark cs)

/-- A plain scalar, which may go on over several lines. -/
def plainText (place : Place) (cs : List Char) : Option (List Char × List Char) :=
  match plainLine place true cs with
  | none => none
  | some (text, rest) =>
    match breaksBelow place.least 0 0 rest with
    | none => none
    | some (breaks, column, below) =>
      if breaks = 0 || !place.admits column below then some (trimGaps text, rest)
      else if below.length < cs.length then
        match plainText place below with
        | none => none
        | some ([], _) => some (trimGaps text, rest)
        | some (more, rest) => some (trimGaps text ++ foldBreaks breaks ++ more, rest)
      else none
termination_by cs.length

/-- Escapes of double quotes that stand for one character. -/
def escapes : List (Char × Nat) :=
  [('0', 0x0), ('a', 0x7), ('b', 0x8), ('t', 0x9), ('\t', 0x9), ('n', 0xa), ('v', 0xb),
   ('f', 0xc), ('r', 0xd), ('e', 0x1b), (' ', 0x20), ('"', 0x22), ('/', 0x2f), ('\\', 0x5c),
   ('N', 0x85), ('_', 0xa0), ('L', 0x2028), ('P', 0x2029)]

/-- Escapes of double quotes with a code point in so many hexadecimal digits. -/
def codeEscapes : List (Char × Nat) := [('x', 2), ('u', 4), ('U', 8)]

def codePoint? (digits : List Char) : Option Nat :=
  digits.foldlM (fun n c => do return 16 * n + (← Json.Reader.hexValue? c)) 0

/-- The character that an escape stands for, behind its backslash. -/
def escape : Recogniser Char
  | [] => none
  | c :: cs =>
    match escapes.lookup c, codeEscapes.lookup c with
    | some n, _ => some (Char.ofNat n, cs)
    | none, some width => do
      guard (width ≤ cs.length)
      let n ← codePoint? (cs.take width)
      guard n.isValidChar
      return (Char.ofNat n, cs.drop width)
    | none, none => none

/-- A run of blanks and line breaks inside quotes, with the text that stands for so many breaks.
On one line there are no breaks. -/
def quotedGap (oneLine : Bool) (ofBreaks : Nat → List Char) (cs : List Char) :
    Option (List Char × List Char) :=
  let run := cs.takeWhile fun c => isGap c || c == '\n'
  let rest := cs.dropWhile fun c => isGap c || c == '\n'
  let breaks := run.count '\n'
  if oneLine && breaks != 0 then none
  else if run.getLast? == some '\n' && startsMark rest then none
  else some (ofBreaks breaks, rest)

/-- The next piece of a quoted text, or nothing at the closing quote. -/
def quotedPiece (oneLine : Bool) (quote : Char) : Recogniser (Option (List Char))
  | [] => none
  | c :: cs =>
    if c = quote then
      match cs with
      | '\'' :: rest => if quote = '\'' then some (some ['\''], rest) else some (none, cs)
      | _ => some (none, cs)
    else if c = '\\' && quote = '"' then
      match cs with
      | '\n' :: _ =>
        (quotedGap oneLine (fun n => List.replicate (n - 1) '\n') cs).map fun (text, rest) =>
          (some text, rest)
      | _ => (escape cs).map fun (d, rest) => (some [d], rest)
    else if isGap c || c = '\n' then
      let gap := (c :: cs).takeWhile isGap
      (quotedGap oneLine (fun n => if n = 0 then gap else foldBreaks n) (c :: cs)).map
        fun (text, rest) => (some text, rest)
    else some (some [c], cs)

/-- The text in front of a closing quote. -/
def quotedText (oneLine : Bool) (quote : Char) (cs : List Char) :
    Option (List Char × List Char) :=
  match quotedPiece oneLine quote cs with
  | none => none
  | some (none, rest) => some ([], rest)
  | some (some piece, rest) =>
    if rest.length < cs.length then
      match quotedText oneLine quote rest with
      | none => none
      | some (text, rest) => some (piece ++ text, rest)
    else none
termination_by cs.length

def isQuote (c : Char) : Bool := c == '"' || c == '\''

def scalar (place : Place) : Recogniser Node
  | [] => none
  | c :: cs =>
    if isQuote c then do
      let (text, rest) ← quotedText false c cs
      return (.scalar false (String.ofList text), rest)
    else if startsPlain place (c :: cs) then do
      let (text, rest) ← plainText place (c :: cs)
      return (.scalar true (String.ofList text), rest)
    else none

/-- A key: a scalar on one line, with the blanks behind it. -/
def key (place : Place) : Recogniser String
  | [] => none
  | c :: cs =>
    if isQuote c then do
      let (text, rest) ← quotedText true c cs
      return (String.ofList text, rest.dropWhile isGap)
    else if startsPlain place (c :: cs) then do
      let (text, rest) ← plainLine place true (c :: cs)
      return (String.ofList (trimGaps text), rest)
    else none

end CAudit.Yaml
