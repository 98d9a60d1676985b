import CAudit.Json.Reader

/-! Passing over a value that nobody asked for. Only its outline is checked: escapes may name any
code unit, numbers may have any size, and nesting has no limit. -/
namespace CAudit.Json.Reader

/-- The rest of a string literal behind its opening quote. -/
def skipString (cs : List Char) : Except Fault (List Char) :=
  match cs with
  | [] => .error .ended
  | c :: cs =>
    if c = '"' then .ok cs
    else if c = '\\' then
      match cs with
      | [] => .error .ended
      | d :: ds =>
        if (letterEscapes.lookup d).isSome then skipString ds
        else if d = 'u' then
          match _h : hexEscape ds with
          | .error e => .error e
          | .ok (_, rest) => skipString rest
        else .error .malformed
    else if c.toNat < 0x20 then .error .malformed
    else skipString cs
termination_by cs.length
decreasing_by
  · simp only [List.length_cons]
    omega
  · have := hexEscape_length (by assumption)
    simp only [List.length_cons]
    omega
  · simp

/-- Digits, at least one of them. -/
def skipDigits (cs : List Char) : Except Fault (List Char) :=
  if cs.head?.any isDigit then .ok (cs.dropWhile isDigit) else .error .malformed

def skipExponent (cs : List Char) : Except Fault (List Char) :=
  skipDigits (if cs.head? == some '-' || cs.head? == some '+' then cs.drop 1 else cs)

def skipFraction (cs : List Char) : Except Fault (List Char) :=
  match skipDigits cs with
  | .ok ('e' :: rest) => skipExponent rest
  | .ok ('E' :: rest) => skipExponent rest
  | r => r

/-- A number behind its sign. -/
def skipNumber (cs : List Char) : Except Fault (List Char) :=
  match skipDigits cs with
  | .error e => .error e
  | .ok rest =>
    if cs.head? == some '0' && rest.length + 1 < cs.length then .error .malformed
    else
      match rest with
      | '.' :: more => skipFraction more
      | 'e' :: more => skipExponent more
      | 'E' :: more => skipExponent more
      | _ => .ok rest

/-- A string, a number or one of the three words. -/
def skipScalar (c : Char) (rest : List Char) : Except Fault (List Char) :=
  if c = 'n' then (literal ['u', 'l', 'l'] rest).map (·.2)
  else if c = 't' then (literal ['r', 'u', 'e'] rest).map (·.2)
  else if c = 'f' then (literal ['a', 'l', 's', 'e'] rest).map (·.2)
  else if c = '-' then skipNumber rest
  else if isDigit c then skipNumber (c :: rest)
  else if c = '"' then skipString rest
  else .error .malformed

/-- The key of a member and its colon, in front of the key's opening quote. -/
def skipKey (cs : List Char) : Except Fault (List Char) :=
  match skipSpace cs with
  | [] => .error .ended
  | c :: rest =>
    if c = '"' then
      match skipString rest with
      | .error e => .error e
      | .ok rest => (colon rest).map (·.2)
    else .error .malformed

/-- The brackets that can be open around a value. -/
inductive Bracket where
  | square | curly
  deriving DecidableEq, Repr

def Bracket.closer : Bracket → Char
  | .square => ']'
  | .curly => '}'

/-- To the next value inside a bracket: in an object the key comes first. -/
def Bracket.enter (b : Bracket) (cs : List Char) : Except Fault (List Char) :=
  match b with
  | .square => .ok cs
  | .curly => skipKey cs

/-- Closes the brackets that end here and goes to the next value inside the innermost one left
open. A comma may come first unless the bracket was just opened. -/
def skipTurn (levels : List Bracket) (comma : Bool) (cs : List Char) :
    Except Fault (List Bracket × List Char) :=
  match levels with
  | [] => .ok ([], cs)
  | b :: outer =>
    match skipSpace cs with
    | [] => .error .ended
    | c :: rest =>
      if c = ',' && comma then (b.enter rest).map fun r => (b :: outer, r)
      else if c = b.closer then skipTurn outer true rest
      else if comma then .error .malformed
      else (b.enter (c :: rest)).map fun r => (b :: outer, r)

/-- One value inside the open brackets, and all that follows it up to the last closing bracket. -/
def skipFrom (levels : List Bracket) (cs : List Char) : Except Fault (List Char) :=
  match skipSpace cs with
  | [] => .error .ended
  | c :: rest =>
    let turn :=
      if c = '[' then skipTurn (.square :: levels) false rest
      else if c = '{' then skipTurn (.curly :: levels) false rest
      else (skipScalar c rest).bind (skipTurn levels true)
    match turn with
    | .error e => .error e
    | .ok ([], rest) => .ok rest
    | .ok (b :: bs, rest) =>
      if rest.length < cs.length then skipFrom (b :: bs) rest else .error .malformed
termination_by cs.length

/-- Passes over one value. -/
def skip : Reader Unit := fun cs => (skipFrom [] cs).map fun rest => ((), rest)

end CAudit.Json.Reader
