import CAudit.Token

/-! The roles that tokens play in the grammar. -/
namespace CAudit.Token

def typeKeywords : List String :=
  ["int", "char", "void", "float", "double", "long", "short", "unsigned", "signed", "const",
   "static", "extern", "volatile", "register", "inline", "auto", "restrict", "struct", "union",
   "enum", "_Bool"]

def controlKeywords : List String := ["if", "while", "for", "switch"]

/-- Keywords that begin a statement and never continue an expression. -/
def statementKeywords : List String :=
  ["return", "if", "else", "while", "for", "do", "switch", "case", "default", "break", "continue",
   "goto", "typedef"]

def expressionEnds : List String := [";", "\x7b", "\x7d", ")", "]", ","]

def isIdentifier (t : Token) : Bool := decide (t.kind = .identifier)

def isDirective (t : Token) : Bool := decide (t.kind = .preprocessor)

def isTypeKeyword (t : Token) : Bool :=
  decide (t.kind = .keyword) && typeKeywords.contains t.lexeme

/-- A type keyword after which an identifier is the tag of the type. -/
def takesTag (t : Token) : Bool :=
  t.lexeme == "struct" || t.lexeme == "union" || t.lexeme == "enum"

/-- A token at which an expression stops. -/
def endsExpression (t : Token) : Bool :=
  match t.kind with
  | .separator => expressionEnds.contains t.lexeme
  | .keyword => statementKeywords.contains t.lexeme
  | .preprocessor => true
  | _ => false

def startsExpression (t : Token) : Bool :=
  match t.kind with
  | .identifier | .number | .string | .char | .operator => true
  | .separator => t.lexeme == "("
  | .keyword => t.lexeme == "sizeof"
  | _ => false

/-- An opening parenthesis or bracket inside an expression. -/
def opensGroup (t : Token) : Bool := t.isSeparator "(" || t.isSeparator "["

end CAudit.Token
