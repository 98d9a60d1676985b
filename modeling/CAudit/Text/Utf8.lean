/-! Bytes read as UTF-8, strictly or with a replacement character for what is malformed. -/
namespace CAudit.Text

/-- What the second byte may be, how many bytes follow the first, and the bits the first gives. -/
structure Lead where
  low : Nat
  high : Nat
  more : Nat
  bits : Nat
  deriving DecidableEq, Repr

/-- Overlong forms, surrogates and values beyond the last code point are kept out by the range
of the second byte. -/
def lead? (b : Nat) : Option Lead :=
  if b < 0xc2 then none
  else if b < 0xe0 then some ⟨0x80, 0xbf, 1, b - 0xc0⟩
  else if b = 0xe0 then some ⟨0xa0, 0xbf, 2, 0⟩
  else if b = 0xed then some ⟨0x80, 0x9f, 2, 0xd⟩
  else if b < 0xf0 then some ⟨0x80, 0xbf, 2, b - 0xe0⟩
  else if b = 0xf0 then some ⟨0x90, 0xbf, 3, 0⟩
  else if b < 0xf4 then some ⟨0x80, 0xbf, 3, b - 0xf0⟩
  else if b = 0xf4 then some ⟨0x80, 0x8f, 3, 4⟩
  else none

/-- Reads up to `more` continuation bytes: the value if all are there, and how many were taken. -/
def continuation (low high : Nat) : Nat → Nat → List UInt8 → Option Nat × Nat
  | 0, value, _ => (some value, 0)
  | _ + 1, _, [] => (none, 0)
  | more + 1, value, b :: bs =>
    if low ≤ b.toNat && b.toNat ≤ high then
      let r := continuation 0x80 0xbf more (value * 0x40 + (b.toNat - 0x80)) bs
      (r.1, r.2 + 1)
    else (none, 0)

/-- The characters of the bytes; `none` stands for one longest malformed piece. -/
def decodeUnits (bs : List UInt8) : List (Option Char) :=
  match bs with
  | [] => []
  | b :: bs =>
    if b.toNat < 0x80 then some (Char.ofNat b.toNat) :: decodeUnits bs
    else
      match lead? b.toNat with
      | none => none :: decodeUnits bs
      | some l =>
        let r := continuation l.low l.high l.more l.bits bs
        r.1.map Char.ofNat :: decodeUnits (bs.drop r.2)
termination_by bs.length
decreasing_by
  all_goals simp only [List.length_cons, List.length_drop]
  all_goals omega

/-- The text, if all bytes are well formed. -/
def decode? (bs : List UInt8) : Option String :=
  ((decodeUnits bs).mapM id).map String.ofList

/-- The text with one replacement character for each malformed piece. -/
def decodeLossy (bs : List UInt8) : String :=
  String.ofList ((decodeUnits bs).map (·.getD (Char.ofNat 0xfffd)))

def encode (s : String) : List UInt8 := s.toUTF8.toList

end CAudit.Text
