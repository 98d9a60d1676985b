import CAudit.Yaml.Document

/-! What the nodes of a document stand for. Only plain scalars are numbers, truth values or
nothing; every scalar is a text. -/
namespace CAudit.Yaml

namespace Node

def isNull : Node → Bool
  | .scalar true text => ["", "~", "null", "Null", "NULL"].contains text
  | _ => false

def text? : Node → Option String
  | .scalar _ text => some text
  | _ => none

def bool? : Node → Option Bool
  | .scalar true text =>
    if ["true", "True", "TRUE"].contains text then some true
    else if ["false", "False", "FALSE"].contains text then some false
    else none
  | _ => none

def entries? : Node → Option Entries
  | .mapping entries => some entries
  | _ => none

/-- A number of one or more digits in a base. -/
def natInBase (base : Nat) (digits : List Char) : Option Nat :=
  if digits.isEmpty then none
  else digits.foldlM (fun n c => do
    let d ← Json.Reader.hexValue? c
    if d < base then some (base * n + d) else none) 0

/-- A number without its sign: hexadecimal, octal or binary behind a mark, else decimal without a
zero in front. -/
def natOfDigits : List Char → Option Nat
  | '0' :: 'x' :: digits => natInBase 16 digits
  | '0' :: 'o' :: digits => natInBase 8 digits
  | '0' :: 'b' :: digits => natInBase 2 digits
  | '0' :: _ :: _ => none
  | digits => natInBase 10 digits

/-- A whole number from zero to `most`. -/
def natUpTo? (most : Nat) : Node → Option Nat
  | .scalar true text => do
    let n ← natOfDigits (match text.toList with
      | '+' :: digits => digits
      | digits => digits)
    if n ≤ most then some n else none
  | _ => none

end Node

namespace Entries

/-- Whether the keys are distinct and all known. -/
def areKnown (known : List String) : Entries → Bool
  | [] => true
  | (k, _) :: rest => known.contains k && !(rest.any (·.1 == k)) && areKnown known rest

/-- The value of a key that may be missing or null. -/
def optional {α : Type} (decode : Node → Option α) (key : String) (entries : Entries) :
    Option (Option α) :=
  match entries.lookup key with
  | none => some none
  | some v => if v.isNull then some none else (decode v).map some

end Entries

end CAudit.Yaml
