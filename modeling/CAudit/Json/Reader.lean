import CAudit.Json

/-! Reading JSON text from the front. A reader gives its value and the text behind it, or the first
fault in the order of the text. -/
namespace CAudit.Json

/-- Why a text was refused: it ended too early, it is not JSON, or it is JSON of another shape
than the one asked for. -/
inductive Fault where
  | ended | malformed | mismatched
  deriving DecidableEq, Repr

def Fault.category : Fault → String
  | .ended => "Eof"
  | .malformed => "Syntax"
  | .mismatched => "Data"

/-- A reader takes its value from the front of a text. -/
abbrev Reader := StateT (List Char) (Except Fault)

/-- How many arrays and objects may be open at once. -/
def maxNesting : Nat := 127

namespace Reader

def isSpace (c : Char) : Bool := c == ' ' || c == '\t' || c == '\n' || c == '\r'

def skipSpace (cs : List Char) : List Char := cs.dropWhile isSpace

/-- Reads the rest of `null`, `true` or `false`. -/
def literal : List Char → Reader Unit
  | [], cs => .ok ((), cs)
  | _ :: _, [] => .error .ended
  | c :: expected, d :: cs => if c = d then literal expected cs else .error .malformed

def hexValue? (c : Char) : Option Nat :=
  if '0' ≤ c && c ≤ '9' then some (c.toNat - '0'.toNat)
  else if 'a' ≤ c && c ≤ 'f' then some (c.toNat - 'a'.toNat + 10)
  else if 'A' ≤ c && c ≤ 'F' then some (c.toNat - 'A'.toNat + 10)
  else none

def hexFour? (a b c d : Char) : Option Nat := do
  let a ← hexValue? a
  let b ← hexValue? b
  let c ← hexValue? c
  let d ← hexValue? d
  return ((a * 16 + b) * 16 + c) * 16 + d

/-- Four hexadecimal digits. A text with less than four bytes left has ended too early. -/
def hexEscape : Reader Nat
  | a :: b :: c :: d :: cs =>
    match hexFour? a b c d with
    | some n => .ok (n, cs)
    | none => .error .malformed
  | cs => if (String.ofList cs).utf8ByteSize < 4 then .error .ended else .error .malformed

/-- The second half of a surrogate pair, whose first half is `high`. -/
def lowSurrogate (high : Nat) : Reader Char
  | [] => .error .ended
  | c :: cs =>
    if c != '\\' then .error .malformed
    else
      match cs with
      | [] => .error .ended
      | u :: cs =>
        if u != 'u' then .error .malformed
        else
          match hexEscape cs with
          | .error e => .error e
          | .ok (n, cs) =>
            if 0xdc00 ≤ n && n ≤ 0xdfff then
              .ok (Char.ofNat ((high - 0xd800) * 0x400 + (n - 0xdc00) + 0x10000), cs)
            else .error .malformed

/-- A code point behind `\u`: one escape, or two for a surrogate pair. -/
def codePoint : Reader Char := fun cs =>
  match hexEscape cs with
  | .error e => .error e
  | .ok (n, cs) =>
    if 0xdc00 ≤ n && n ≤ 0xdfff then .error .malformed
    else if 0xd800 ≤ n && n ≤ 0xdbff then lowSurrogate n cs
    else .ok (Char.ofNat n, cs)

/-- The escapes of one letter. -/
def letterEscapes : List (Char × Char) :=
  [('"', '"'), ('\\', '\\'), ('/', '/'), ('b', Char.ofNat 0x8), ('f', Char.ofNat 0xc),
   ('n', '\n'), ('r', '\r'), ('t', '\t')]

/-- What stands behind a backslash. -/
def escape : Reader Char
  | [] => .error .ended
  | c :: cs =>
    match letterEscapes.lookup c with
    | some d => .ok (d, cs)
    | none => if c = 'u' then codePoint cs else .error .malformed

theorem hexEscape_length {cs r : List Char} {n : Nat} (h : hexEscape cs = .ok (n, r)) :
    r.length ≤ cs.length := by
  unfold hexEscape at h
  split at h
  · split at h
    · cases h
      simp only [List.length_cons]
      omega
    · cases h
  · split at h <;> cases h

theorem lowSurrogate_length {high : Nat} {cs r : List Char} {c : Char}
    (h : lowSurrogate high cs = .ok (c, r)) : r.length ≤ cs.length := by
  unfold lowSurrogate at h
  split at h
  · cases h
  · split at h
    · cases h
    · split at h
      · cases h
      · split at h
        · cases h
        · split at h
          · cases h
          · next he =>
            split at h
            · have hl := hexEscape_length he
              simp only [Except.ok.injEq, Prod.mk.injEq] at h
              obtain ⟨_, rfl⟩ := h
              simp only [List.length_cons]
              omega
            · cases h

theorem codePoint_length {cs r : List Char} {c : Char} (h : codePoint cs = .ok (c, r)) :
    r.length ≤ cs.length := by
  unfold codePoint at h
  split at h
  · cases h
  · next he =>
    have hl := hexEscape_length he
    split at h
    · cases h
    · split at h
      · exact Nat.le_trans (lowSurrogate_length h) hl
      · cases h
        exact hl

theorem escape_length {cs r : List Char} {c : Char} (h : escape cs = .ok (c, r)) :
    r.length < cs.length := by
  unfold escape at h
  split at h
  · cases h
  · split at h
    · cases h
      simp
    · split at h
      · exact Nat.lt_succ_of_le (codePoint_length h)
      · cases h

/-- The rest of a string literal behind its opening quote; `acc` holds the characters read,
last one first. -/
def stringFrom (acc : List Char) (cs : List Char) : Except Fault (String × List Char) :=
  match cs with
  | [] => .error .ended
  | c :: cs =>
    if c = '"' then .ok (String.ofList acc.reverse, cs)
    else if c = '\\' then
      match _h : escape cs with
      | .error e => .error e
      | .ok (d, rest) => stringFrom (d :: acc) rest
    else if c.toNat < 0x20 then .error .malformed
    else stringFrom (c :: acc) cs
termination_by cs.length
decreasing_by
  · have := escape_length (by assumption)
    simp only [List.length_cons]
    omega
  · simp

def stringBody : Reader String := stringFrom []

def isDigit (c : Char) : Bool := '0' ≤ c && c ≤ '9'

def digitValue (c : Char) : Nat := c.toNat - '0'.toNat

def maxWord : Nat := 0xffffffffffffffff

/-- A number being read: the leading digits that fit a word, and the power of ten they stand at. -/
structure Decimal where
  significand : Nat
  exponent : Int
  deriving DecidableEq, Repr

/-- Takes one more digit before the point. Digits that no longer fit only raise the power. -/
def Decimal.pushWhole (d : Decimal) (c : Char) : Decimal :=
  if d.exponent = 0 && d.significand * 10 + digitValue c ≤ maxWord then
    { d with significand := d.significand * 10 + digitValue c }
  else { d with exponent := d.exponent + 1 }

/-- Takes the digits behind the point, up to the first that no longer fits. -/
def Decimal.pushFraction (d : Decimal) : List Char → Decimal
  | [] => d
  | c :: cs =>
    if d.significand * 10 + digitValue c ≤ maxWord then
      Decimal.pushFraction ⟨d.significand * 10 + digitValue c, d.exponent - 1⟩ cs
    else d

def powerOfTen (n : Nat) : Float := Float.ofScientific 1 false n

/-- Divides by a power of ten, in steps that a double can hold. -/
def scaleDown (x : Float) (n : Nat) : Float :=
  if n ≤ 308 then x / powerOfTen n
  else if x == 0 then x
  else scaleDown (x / powerOfTen 308) (n - 308)
termination_by n

/-- The double of a decimal, none when it is too large for one. -/
def Decimal.toFloat? (d : Decimal) : Option Float :=
  let x := d.significand.toUInt64.toFloat
  if d.exponent < 0 then some (scaleDown x d.exponent.natAbs)
  else if d.exponent ≤ 308 then
    let y := x * powerOfTen d.exponent.natAbs
    if y.isInf then none else some y
  else if x == 0 then some x
  else none

def signed (positive : Bool) (x : Float) : Float := if positive then x else -x

def floatNumber (positive : Bool) (d : Decimal) : Reader Number := fun cs =>
  match d.toFloat? with
  | some x => .ok (.float (signed positive x), cs)
  | none => .error .malformed

def maxExponent : Nat := 0x7fffffff

/-- The rest of a number behind its exponent mark. An exponent beyond all bounds gives zero, or
no number at all. -/
def exponentPart (positive : Bool) (d : Decimal) : Reader Number := fun cs =>
  let up := cs.head? != some '-'
  let cs := if cs.head? == some '-' || cs.head? == some '+' then cs.drop 1 else cs
  match cs with
  | [] => .error .ended
  | c :: _ =>
    if isDigit c then
      let ds := cs.takeWhile isDigit
      let cs := cs.drop ds.length
      let e := ds.foldl (fun n c => n * 10 + digitValue c) 0
      if e ≤ maxExponent then
        floatNumber positive
          { d with exponent := if up then d.exponent + e else d.exponent - e } cs
      else if up && d.significand != 0 then .error .malformed
      else .ok (.float (signed positive 0), cs)
    else .error .malformed

/-- The rest of a number behind its point. -/
def fractionPart (positive : Bool) (d : Decimal) : Reader Number := fun cs =>
  let ds := cs.takeWhile isDigit
  let rest := cs.drop ds.length
  match ds, rest with
  | [], [] => .error .ended
  | [], _ :: _ => .error .malformed
  | _ :: _, c :: more =>
    if c == 'e' || c == 'E' then exponentPart positive (d.pushFraction ds) more
    else floatNumber positive (d.pushFraction ds) rest
  | _ :: _, [] => floatNumber positive (d.pushFraction ds) []

/-- A whole number without its sign; minus zero and what 64 bits cannot hold are doubles. -/
def wholeNumber (positive : Bool) (d : Decimal) : Reader Number := fun cs =>
  if d.exponent = 0 then
    if positive then .ok (.nat d.significand, cs)
    else if d.significand != 0 && d.significand ≤ 0x8000000000000000 then
      .ok (.negative d.significand, cs)
    else floatNumber false d cs
  else floatNumber positive d cs

/-- A number behind its sign. -/
def unsignedNumber (positive : Bool) : Reader Number := fun cs =>
  match cs with
  | [] => .error .ended
  | c :: _ =>
    if !isDigit c then .error .malformed
    else
      let ds := cs.takeWhile isDigit
      let rest := cs.drop ds.length
      if c == '0' && 1 < ds.length then .error .malformed
      else
        let d := ds.foldl Decimal.pushWhole ⟨0, 0⟩
        match rest with
        | '.' :: more => fractionPart positive d more
        | 'e' :: more => exponentPart positive d more
        | 'E' :: more => exponentPart positive d more
        | _ => wholeNumber positive d rest

def number : Reader Number
  | '-' :: cs => unsignedNumber false cs
  | cs => unsignedNumber true cs

/-- Where a list goes on: at the text of its next part, or behind its closing bracket. -/
inductive Turn where
  | next (rest : List Char)
  | close (rest : List Char)

/-- From one item of an array to the next. -/
def arrayTurn (first : Bool) (cs : List Char) : Except Fault Turn :=
  match skipSpace cs with
  | [] => .error .ended
  | c :: rest =>
    if c = ']' then .ok (.close rest)
    else if first then .ok (.next (c :: rest))
    else if c = ',' then
      match skipSpace rest with
      | [] => .error .ended
      | d :: rest => if d = ']' then .error .malformed else .ok (.next (d :: rest))
    else .error .malformed

/-- From one member of an object to the key of the next, behind the quote that opens the key. -/
def objectTurn (first : Bool) (cs : List Char) : Except Fault Turn :=
  match skipSpace cs with
  | [] => .error .ended
  | c :: rest =>
    if c = '}' then .ok (.close rest)
    else if first then if c = '"' then .ok (.next rest) else .error .malformed
    else if c = ',' then
      match skipSpace rest with
      | [] => .error .ended
      | d :: rest => if d = '"' then .ok (.next rest) else .error .malformed
    else .error .malformed

/-- The colon between a key and its value. -/
def colon : Reader Unit := fun cs =>
  match skipSpace cs with
  | [] => .error .ended
  | c :: rest => if c = ':' then .ok ((), rest) else .error .malformed

/-- The items of an array behind its opening bracket, through the closing one. An item takes at
least one character. -/
def itemsFrom {α : Type} (item : Reader α) (first : Bool) (cs : List Char) :
    Except Fault (List α × List Char) :=
  match arrayTurn first cs with
  | .error e => .error e
  | .ok (.close rest) => .ok ([], rest)
  | .ok (.next ds) =>
    match item ds with
    | .error e => .error e
    | .ok (a, rest) =>
      if rest.length < cs.length then
        match itemsFrom item false rest with
        | .error e => .error e
        | .ok (as, rest) => .ok (a :: as, rest)
      else .error .malformed
termination_by cs.length

/-- The members of an object behind its opening brace, through the closing one, taken into `s` one
by one. A key is judged before its value is read; a member takes at least one character. -/
def membersFrom {σ : Type} (value : σ → String → Except Fault (Reader σ)) (s : σ) (first : Bool)
    (cs : List Char) : Except Fault (σ × List Char) :=
  match objectTurn first cs with
  | .error e => .error e
  | .ok (.close rest) => .ok (s, rest)
  | .ok (.next ds) =>
    match (do
        let (key, ds) ← stringBody ds
        let read ← value s key
        let (_, ds) ← colon ds
        read ds) with
    | .error e => .error e
    | .ok (s, rest) =>
      if rest.length < cs.length then membersFrom value s false rest else .error .malformed
termination_by cs.length

/-- Any value, with `room` more arrays and objects to open. -/
def value : Nat → Reader Json
  | room, cs =>
    match skipSpace cs with
    | [] => .error .ended
    | c :: rest =>
      if c = 'n' then (literal ['u', 'l', 'l'] rest).map fun r => (.null, r.2)
      else if c = 't' then (literal ['r', 'u', 'e'] rest).map fun r => (.bool true, r.2)
      else if c = 'f' then (literal ['a', 'l', 's', 'e'] rest).map fun r => (.bool false, r.2)
      else if c = '-' || isDigit c then (number (c :: rest)).map fun r => (.number r.1, r.2)
      else if c = '"' then (stringBody rest).map fun r => (.string r.1, r.2)
      else if c = '[' then
        match room with
        | 0 => .error .malformed
        | room + 1 => (itemsFrom (value room) true rest).map fun r => (.array r.1, r.2)
      else if c = '{' then
        match room with
        | 0 => .error .malformed
        | room + 1 =>
          (membersFrom (fun members key => .ok fun cs =>
            (value room cs).map fun r => (setMember members key r.1, r.2)) [] true rest).map
              fun r => (.object r.1, r.2)
      else .error .malformed

/-- A reader for a whole text: only blanks may follow. -/
def whole {α : Type} (r : Reader α) (s : String) : Except Fault α :=
  match r s.toList with
  | .error e => .error e
  | .ok (a, rest) => if (skipSpace rest).isEmpty then .ok a else .error .malformed

end Reader

/-- The value of a JSON text. -/
def parse (s : String) : Except Fault Json := (Reader.value maxNesting).whole s

end CAudit.Json
