import CAudit.Text.Printable

/-! Text as a message shows it: in double quotes, with escapes for what cannot be shown. -/
namespace CAudit.Text

def hexDigits (n : Nat) : List Char := Nat.toDigits 16 n

/-- One character between the quotes. A character that cannot be shown gives its code point. -/
def quoteChar (c : Char) : List Char :=
  if c.toNat == 0 then ['\\', '0']
  else if c == '\t' then ['\\', 't']
  else if c == '\r' then ['\\', 'r']
  else if c == '\n' then ['\\', 'n']
  else if c == '"' then ['\\', '"']
  else if c == '\\' then ['\\', '\\']
  else if isPrintable c then [c]
  else ['\\', 'u', '{'] ++ hexDigits c.toNat ++ ['}']

def quoted (s : String) : String :=
  String.ofList ('"' :: s.toList.flatMap quoteChar ++ ['"'])

end CAudit.Text
