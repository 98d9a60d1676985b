import CAudit.Text.Quoted

/-! Tokens: classified lexemes with the line they start on. -/
namespace CAudit

namespace Token

inductive Kind where
  | keyword | identifier | number | char | string | operator | separator
  | preprocessor | comment | unknown | whitespace
  deriving DecidableEq, Repr

namespace Kind

def all : List Kind :=
  [.keyword, .identifier, .number, .char, .string, .operator, .separator, .preprocessor,
   .comment, .unknown, .whitespace]

def name : Kind → String
  | .keyword => "KEYWORD"
  | .identifier => "IDENTIFIER"
  | .number => "NUMBER"
  | .char => "CHAR"
  | .string => "STRING"
  | .operator => "OPERATOR"
  | .separator => "SEPARATOR"
  | .preprocessor => "PREPROCESSOR"
  | .comment => "COMMENT"
  | .unknown => "UNKNOWN"
  | .whitespace => "WHITESPACE"

def ofName? (s : String) : Option Kind := all.find? (·.name == s)

/-- Blanks and comments carry no meaning for the grammar. -/
def isTrivia : Kind → Bool
  | .whitespace | .comment => true
  | _ => false

end Kind

end Token

structure Token where
  kind : Token.Kind
  lexeme : String
  line : Nat
  deriving DecidableEq, Repr

namespace Token

def is (t : Token) (kind : Kind) (lexeme : String) : Bool :=
  decide (t.kind = kind) && t.lexeme == lexeme

def isSeparator (t : Token) (lexeme : String) : Bool := t.is .separator lexeme

def isKeyword (t : Token) (lexeme : String) : Bool := t.is .keyword lexeme

def isOperator (t : Token) (lexeme : String) : Bool := t.is .operator lexeme

/-- The token as messages name it. -/
def describe (t : Token) : String :=
  t.kind.name ++ "(" ++ Text.quoted t.lexeme ++ ") at line " ++ t.line.repr

end Token

end CAudit
