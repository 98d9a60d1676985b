import CAudit.Text.Blank
import CAudit.Text.Word
import CAudit.Token

/-! How far a lexeme reaches. Each rule gives the number of characters that its lexeme takes from
the front of the text, zero when none starts there; the first rule that takes any wins. -/
namespace CAudit.Lexeme
open Text

def keywords : List String :=
  ["auto", "break", "case", "char", "const", "continue", "default", "do", "double", "else",
   "enum", "extern", "float", "for", "goto", "if", "inline", "int", "long", "register",
   "restrict", "return", "short", "signed", "sizeof", "static", "struct", "switch", "typedef",
   "union", "unsigned", "void", "volatile", "while", "_Bool"]

/-- Operators, every one before its own beginnings. -/
def operators : List String :=
  ["<<=", ">>=", "->", "++", "--", "<<", ">>", "<=", ">=", "==", "!=", "&&", "||", "+=", "-=",
   "*=", "/=", "%=", "&=", "|=", "^=", "-", "+", "*", "/", "%", "=", "<", ">", "!", "&", "|",
   "^", "~", "?"]

def separators : List Char := ['(', ')', '[', ']', '{', '}', ';', ',', '.', ':']

def blanks (cs : List Char) : Nat := (cs.takeWhile isBlank).length

/-- Up to and including the first `*/`, or everything. -/
def blockComment : List Char → Nat
  | [] => 0
  | '*' :: '/' :: _ => 2
  | _ :: cs => blockComment cs + 1

def comment : List Char → Nat
  | '/' :: '/' :: cs => (cs.takeWhile (· != '\n')).length + 2
  | '/' :: '*' :: cs => blockComment cs + 2
  | _ => 0

/-- Up to the first newline that no backslash continues. -/
def directiveLine : List Char → Nat
  | [] => 0
  | '\\' :: '\n' :: cs => directiveLine cs + 2
  | '\\' :: '\r' :: '\n' :: cs => directiveLine cs + 3
  | c :: cs => if c = '\n' then 0 else directiveLine cs + 1

def directive : List Char → Nat
  | '#' :: cs => directiveLine cs + 1
  | _ => 0

/-- The characters of a C identifier at the front. -/
def name (cs : List Char) : List Char :=
  if cs.head?.any isNameStart then cs.takeWhile isNameChar else []

/-- A name in the list of keywords, with no word character of any script after it. -/
def keyword (cs : List Char) : Nat :=
  let w := name cs
  if keywords.contains (String.ofList w) && endsWord (cs.drop w.length) then w.length else 0

def identifier (cs : List Char) : Nat := (name cs).length

def digits (cs : List Char) : Nat := (cs.takeWhile isDigit).length

def isHexDigit (c : Char) : Bool :=
  isAsciiDigit c || ('a' ≤ c && c ≤ 'f') || ('A' ≤ c && c ≤ 'F')

def hexNumber : List Char → Nat
  | '0' :: x :: cs =>
    let n := (cs.takeWhile isHexDigit).length
    if (x == 'x' || x == 'X') && n != 0 then n + 2 else 0
  | _ => 0

/-- An exponent mark, a sign if there is one, and at least one digit. -/
def exponent : List Char → Nat
  | e :: cs =>
    if e == 'e' || e == 'E' then
      let sign := if cs.head?.any fun c => c == '+' || c == '-' then 1 else 0
      let n := digits (cs.drop sign)
      if n == 0 then 0 else n + sign + 1
    else 0
  | [] => 0

/-- Digits with a point among them or before them, or without one, and an exponent. -/
def decimalNumber (cs : List Char) : Nat :=
  let whole := digits cs
  match cs.drop whole with
  | '.' :: r =>
    let part := digits r
    if whole == 0 && part == 0 then 0 else whole + 1 + part + exponent (r.drop part)
  | r => if whole == 0 then 0 else whole + exponent r

def isNumberSuffix (c : Char) : Bool :=
  c == 'u' || c == 'U' || c == 'l' || c == 'L' || c == 'f' || c == 'F'

def number (cs : List Char) : Nat :=
  let hex := hexNumber cs
  let n := if hex == 0 then decimalNumber cs else hex
  if n == 0 then 0 else n + ((cs.drop n).takeWhile isNumberSuffix).length

/-- What follows an opening quote, through the quote that closes it on the same line. -/
def closing? (quote : Char) : List Char → Option Nat
  | [] => none
  | '\\' :: c :: cs => if c = '\n' then none else (closing? quote cs).map (· + 2)
  | c :: cs =>
    if c = quote then some 1
    else if c = '\\' || c = '\n' then none
    else (closing? quote cs).map (· + 1)

def literal (quote : Char) : List Char → Nat
  | c :: cs => if c = quote then ((closing? quote cs).map (· + 1)).getD 0 else 0
  | [] => 0

def operator (cs : List Char) : Nat :=
  ((operators.find? fun o => o.toList.isPrefixOf cs).map (·.length)).getD 0

def separator : List Char → Nat
  | c :: _ => if separators.contains c then 1 else 0
  | [] => 0

/-- The rules, in the order in which they are tried. -/
def rules : List (Token.Kind × (List Char → Nat)) :=
  [(.whitespace, blanks), (.comment, comment), (.preprocessor, directive), (.keyword, keyword),
   (.identifier, identifier), (.number, number), (.char, literal '\''), (.string, literal '"'),
   (.operator, operator), (.separator, separator)]

/-- The kind and the length of the lexeme at the front. What fits no rule is one character. -/
def classify (cs : List Char) : Token.Kind × Nat :=
  (rules.findSome? fun rule =>
    let n := rule.2 cs
    if n == 0 then none else some (rule.1, n)).getD (.unknown, 1)

theorem classify_pos (cs : List Char) : 0 < (classify cs).2 := by
  unfold classify
  cases h : rules.findSome? _ with
  | none => simp
  | some r =>
    obtain ⟨rule, _, hr⟩ := List.exists_of_findSome?_eq_some h
    simp only [beq_iff_eq, Option.ite_none_left_eq_some, Option.some.injEq] at hr
    obtain ⟨hn, rfl⟩ := hr
    exact Nat.pos_of_ne_zero hn

end CAudit.Lexeme
