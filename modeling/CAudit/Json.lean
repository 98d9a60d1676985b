/-! JSON values. -/
namespace CAudit

namespace Json

/-- Whole numbers of 64 bits are exact; every other number is the nearest double. -/
inductive Number where
  | nat (n : Nat)
  | negative (n : Nat)
  | float (x : Float)
  deriving Repr

end Json

/-- A JSON value. The members of an object keep the order of the document. -/
inductive Json where
  | null
  | bool (b : Bool)
  | number (n : Json.Number)
  | string (s : String)
  | array (items : List Json)
  | object (members : List (String × Json))
  deriving Repr

namespace Json

def nat (n : Nat) : Json := .number (.nat n)

def get? (v : Json) (key : String) : Option Json :=
  match v with
  | .object members => (members.find? (·.1 == key)).map (·.2)
  | _ => none

def asString? : Json → Option String
  | .string s => some s
  | _ => none

def asBool? : Json → Option Bool
  | .bool b => some b
  | _ => none

def asNat? : Json → Option Nat
  | .number (.nat n) => some n
  | _ => none

def asArray? : Json → Option (List Json)
  | .array items => some items
  | _ => none

def isObject : Json → Bool
  | .object _ => true
  | _ => false

/-- The members with `key` set: a known key keeps its place and takes the new value. -/
def setMember (members : List (String × Json)) (key : String) (v : Json) :
    List (String × Json) :=
  if members.any (·.1 == key) then
    members.map fun m => if m.1 == key then (key, v) else m
  else members ++ [(key, v)]

end Json

end CAudit
