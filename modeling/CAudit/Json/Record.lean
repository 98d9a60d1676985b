import CAudit.Json.Skip

/-! Readers for values of a known shape. -/
namespace CAudit.Json.Reader

/-- The fault of a value of another kind than the wanted one: a broken literal is named first. -/
def otherKind (cs : List Char) : Fault :=
  let faultOf {α : Type} : Except Fault α → Fault
    | .ok _ => .mismatched
    | .error e => e
  match cs with
  | [] => .ended
  | c :: rest =>
    if c = 'n' then faultOf (literal ['u', 'l', 'l'] rest)
    else if c = 't' then faultOf (literal ['r', 'u', 'e'] rest)
    else if c = 'f' then faultOf (literal ['a', 'l', 's', 'e'] rest)
    else if c = '-' || isDigit c then faultOf (number (c :: rest))
    else if c = '"' then faultOf (stringBody rest)
    else if c = '[' || c = '{' then .mismatched
    else .malformed

def string : Reader String := fun cs =>
  match skipSpace cs with
  | '"' :: rest => stringBody rest
  | cs => .error (otherKind cs)

def bool : Reader Bool := fun cs =>
  match skipSpace cs with
  | 't' :: rest => (literal ['r', 'u', 'e'] rest).map fun r => (true, r.2)
  | 'f' :: rest => (literal ['a', 'l', 's', 'e'] rest).map fun r => (false, r.2)
  | cs => .error (otherKind cs)

/-- A whole number from zero to `most`. -/
def natUpTo (most : Nat) : Reader Nat := fun cs =>
  match skipSpace cs with
  | [] => .error .ended
  | c :: rest =>
    if c = '-' || isDigit c then
      match number (c :: rest) with
      | .error e => .error e
      | .ok (.nat n, rest) => if n ≤ most then .ok (n, rest) else .error .mismatched
      | .ok _ => .error .mismatched
    else .error (otherKind (c :: rest))

/-- A value that may be `null`. -/
def nullable {α : Type} (r : Reader α) : Reader (Option α) := fun cs =>
  match skipSpace cs with
  | 'n' :: rest => (literal ['u', 'l', 'l'] rest).map fun s => (none, s.2)
  | cs => (r cs).map fun s => (some s.1, s.2)

def null : Reader Unit := fun cs =>
  match skipSpace cs with
  | 'n' :: rest => literal ['u', 'l', 'l'] rest
  | cs => .error (otherKind cs)

/-- One of a list of names: as a string, or as the only key of an object whose value is `null`. -/
def oneOf {α : Type} (room : Nat) (named : String → Option α) : Reader α := fun cs =>
  let name : Reader α := fun cs => do
    let (s, rest) ← string cs
    match named s with
    | some a => .ok (a, rest)
    | none => .error .mismatched
  match skipSpace cs with
  | [] => .error .ended
  | c :: rest =>
    if c = '"' then name (c :: rest)
    else if c = '{' then
      if room = 0 then .error .malformed
      else do
        let (a, rest) ← name rest
        let (_, rest) ← colon rest
        let (_, rest) ← null rest
        match skipSpace rest with
        | [] => .error .ended
        | c :: rest => if c = '}' then .ok (a, rest) else .error .malformed
    else .error .malformed

/-- An array, with `room` more arrays and objects to open. -/
def list {α : Type} (room : Nat) (item : Reader α) : Reader (List α) := fun cs =>
  match skipSpace cs with
  | '[' :: rest => if room = 0 then .error .malformed else itemsFrom item true rest
  | cs => .error (otherKind cs)

/-- A field of a record that is being filled: its name, whether it was read already, how it is
read, and what a positional record without it holds. -/
structure Field (σ : Type) where
  name : String
  isSet : σ → Bool
  read : σ → Reader σ
  absent : σ → Option σ

/-- The fields of a record in their order, a record with none of them read, and the finished
value, if every field that is needed was read. -/
structure Shape (σ α : Type) where
  fields : List (Field σ)
  empty : σ
  finish : σ → Option α

/-- The reader for the value of a key. A field read twice is a fault; an unknown key is passed
over. -/
def Shape.member {σ α : Type} (shape : Shape σ α) (s : σ) (key : String) :
    Except Fault (Reader σ) :=
  match shape.fields.find? (·.name == key) with
  | some f => if f.isSet s then .error .mismatched else .ok (f.read s)
  | none => .ok fun cs => (skip cs).map fun r => (s, r.2)

/-- The fields by position, behind an opening bracket. -/
def positional {σ : Type} : List (Field σ) → σ → Bool → Reader σ
  | [], s, _, cs =>
    match skipSpace cs with
    | [] => .error .ended
    | c :: rest => if c = ']' then .ok (s, rest) else .error .malformed
  | f :: fs, s, first, cs =>
    match arrayTurn first cs with
    | .error e => .error e
    | .ok (.next ds) =>
      match f.read s ds with
      | .error e => .error e
      | .ok (s, rest) => positional fs s false rest
    | .ok (.close rest) =>
      match (f :: fs).foldlM (fun s f => f.absent s) s with
      | some s => .ok (s, rest)
      | none => .error .mismatched

/-- A record, written as an object or as an array of its fields in their order. -/
def record {σ α : Type} (room : Nat) (shape : Shape σ α) : Reader α := fun cs =>
  let finish : Except Fault (σ × List Char) → Except Fault (α × List Char)
    | .error e => .error e
    | .ok (s, rest) =>
      match shape.finish s with
      | some a => .ok (a, rest)
      | none => .error .mismatched
  match skipSpace cs with
  | '{' :: rest =>
    if room = 0 then .error .malformed
    else finish (membersFrom shape.member shape.empty true rest)
  | '[' :: rest =>
    if room = 0 then .error .malformed
    else finish (positional shape.fields shape.empty true rest)
  | cs => .error (otherKind cs)

end CAudit.Json.Reader
