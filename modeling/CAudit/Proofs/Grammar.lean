import CAudit.SyntaxTree
import CAudit.Token.Role

/-! The grammar of sources, as predicates on trees. A tree that satisfies them is a derivation of
the tokens at its leaves. The number `n` is a number of levels: statements, braced bodies and groups
may be nested that deep and no deeper. A tree is a derivation without a limit when it is one for
some number of levels. -/
namespace CAudit.Grammar

/-- Runs of tokens that close `d` brackets opened before them and balance their own. -/
inductive Balanced (opener closer : String) (barred : Token → Bool) : Nat → List Token → Prop
  | nil : Balanced opener closer barred 0 []
  | opens {d : Nat} {t : Token} {ts : List Token} : t.isSeparator opener = true →
      Balanced opener closer barred (d + 1) ts → Balanced opener closer barred d (t :: ts)
  | closes {d : Nat} {t : Token} {ts : List Token} : t.isSeparator closer = true →
      Balanced opener closer barred d ts → Balanced opener closer barred (d + 1) (t :: ts)
  | other {d : Nat} {t : Token} {ts : List Token} : t.isSeparator opener = false →
      t.isSeparator closer = false → barred t = false →
      Balanced opener closer barred d ts → Balanced opener closer barred d (t :: ts)

/-- Parameters: balanced parentheses and no opening brace. -/
def Parameters (run : List Token) : Prop :=
  Balanced "(" ")" (·.isSeparator "\x7b") 0 run

/-- Conditions: balanced parentheses, no brace and no directive. -/
def Condition (run : List Token) : Prop :=
  Balanced "(" ")" (fun t => t.isSeparator "\x7b" || t.isSeparator "\x7d" || t.isDirective) 0 run

/-- What stands between the outer braces of an initializer: balanced braces, no semicolon and no
directive. -/
def Initializers (run : List Token) : Prop :=
  Balanced "\x7b" "\x7d" (fun t => t.isSeparator ";" || t.isDirective) 0 run

/-- Type keywords with their tags. The flags tell whether the word in front, and the last word, is
a keyword that still waits for its tag. -/
inductive TypeWords : Bool → List Token → Bool → Prop
  | nil {waits : Bool} : TypeWords waits [] waits
  | keyword {waits last : Bool} {k : Token} {ts : List Token} : k.isTypeKeyword = true →
      TypeWords k.takesTag ts last → TypeWords waits (k :: ts) last
  | tag {last : Bool} {t : Token} {ts : List Token} : t.isIdentifier = true →
      TypeWords false ts last → TypeWords true (t :: ts) last

def Stars (stars : List Token) : Prop := ∀ t ∈ stars, t.isOperator "*" = true

/-- A type in front of an identifier: one or more words, then stars. Without stars the last word
does not wait for a tag, as the identifier would be that tag. -/
inductive TypeSpec : List Token → Prop
  | mk {words stars : List Token} {last : Bool} : words ≠ [] → TypeWords false words last →
      Stars stars → (stars = [] → last = false) → TypeSpec (words ++ stars)

/-- An opening and a closing bracket of the same shape. -/
def Pairs (opener closer : Token) : Prop :=
  opener.isSeparator "(" = true ∧ closer.isSeparator ")" = true ∨
    opener.isSeparator "[" = true ∧ closer.isSeparator "]" = true

theorem Pairs.opensGroup {opener closer : Token} (h : Pairs opener closer) :
    opener.opensGroup = true := by
  rcases h with h | h <;> simp [Token.opensGroup, h.1]

/-- The items of an expression: tokens that do not end it, and groups one level further in. Inside a
group commas are items too. -/
inductive Items : Nat → Bool → List SyntaxTree → Prop
  | nil {n : Nat} {commas : Bool} : Items n commas []
  | token {n : Nat} {commas : Bool} {t : Token} {items : List SyntaxTree} :
      t.opensGroup = false →
      (t.endsExpression = false ∨ commas = true ∧ t.isSeparator "," = true) →
      Items n commas items → Items n commas (.leaf t :: items)
  | group {n : Nat} {commas : Bool} {opener closer : Token} {inner items : List SyntaxTree} :
      Pairs opener closer → Items n true inner → Items (n + 1) commas items →
      Items (n + 1) commas (.leaf opener :: .node .expression inner :: .leaf closer :: items)

/-- Any number of pieces, one behind the other. -/
inductive Many (Piece : List SyntaxTree → Prop) : List SyntaxTree → Prop
  | nil : Many Piece []
  | cons {first more : List SyntaxTree} : Piece first → Many Piece more →
      Many Piece (first ++ more)

/-- A further expression behind a comma. -/
inductive NextExpression (n : Nat) : List SyntaxTree → Prop
  | mk {comma : Token} {items : List SyntaxTree} : comma.isSeparator "," = true →
      Items n false items → NextExpression n [.leaf comma, .node .expression items]

inductive ArraySize (n : Nat) : List SyntaxTree → Prop
  | mk {opener closer : Token} {items : List SyntaxTree} : opener.isSeparator "[" = true →
      Items n false items → closer.isSeparator "]" = true →
      ArraySize n [.leaf opener, .node .arraySize items, .leaf closer]

/-- The value of a declared name: none, an expression, or a braced list taken flat. -/
inductive Value (n : Nat) : List SyntaxTree → Prop
  | none : Value n []
  | expression {assign : Token} {items : List SyntaxTree} : assign.isOperator "=" = true →
      Items n false items → Value n [.leaf assign, .node .expression items]
  | list {assign opener closer : Token} {run : List Token} : assign.isOperator "=" = true →
      opener.isSeparator "\x7b" = true → Initializers run → closer.isSeparator "\x7d" = true →
      Value n [.leaf assign,
        .node .initializerList (.leaf opener :: run.map .leaf ++ [.leaf closer])]

inductive Declarator (n : Nat) : List SyntaxTree → Prop
  | mk {name : Token} {sizes value : List SyntaxTree} : name.isIdentifier = true →
      Many (ArraySize n) sizes → Value n value → Declarator n (.leaf name :: sizes ++ value)

/-- A further declared name behind a comma, with stars of its own. -/
inductive NextDeclarator (n : Nat) : List SyntaxTree → Prop
  | mk {comma : Token} {stars : List Token} {items : List SyntaxTree} :
      comma.isSeparator "," = true → Stars stars → Declarator n items →
      NextDeclarator n (.leaf comma :: stars.map .leaf ++ items)

/-- Trees that end in an `if` without an `else`: an `else` behind them belongs to that `if`. -/
inductive EndsOpen : SyntaxTree → Prop
  | statement {b : SyntaxTree} : EndsOpen b → EndsOpen (.node .statement [b])
  | noElse {k : Token} {opener cond closer body : SyntaxTree} : k.isKeyword "if" = true →
      EndsOpen (.node .controlStructure [.leaf k, opener, cond, closer, body])
  | last {front : List SyntaxTree} {body : SyntaxTree} : EndsOpen body →
      EndsOpen (.node .controlStructure (front ++ [body]))

/-- A keyword that a condition follows. -/
def isControl (k : Token) : Bool :=
  decide (k.kind = .keyword) && Token.controlKeywords.contains k.lexeme

mutual

inductive Statement : Nat → SyntaxTree → Prop
  | mk {n : Nat} {b : SyntaxTree} : Construct n b → Statement (n + 1) (.node .statement [b])

inductive Block : Nat → SyntaxTree → Prop
  | mk {n : Nat} {opener closer : Token} {body : List SyntaxTree} :
      opener.isSeparator "\x7b" = true → (∀ b ∈ body, Statement n b) →
      closer.isSeparator "\x7d" = true →
      Block n (.node .block (.leaf opener :: body ++ [.leaf closer]))

/-- The body of a control structure. A brace opens a block there, never a statement. -/
inductive Body : Nat → SyntaxTree → Prop
  | braced {n : Nat} {b : SyntaxTree} : Block n b → Body (n + 1) b
  | single {n : Nat} {b : SyntaxTree} : (∀ inner, b ≠ .node .block inner) →
      Statement n (.node .statement [b]) → Body n (.node .statement [b])

/-- What a statement wraps. -/
inductive Construct : Nat → SyntaxTree → Prop
  | block {n : Nat} {b : SyntaxTree} : Block n b → Construct n b
  | empty {n : Nat} {semicolon : Token} : semicolon.isSeparator ";" = true →
      Construct n (.node .emptyStatement [.leaf semicolon])
  | returnNothing {n : Nat} {k semicolon : Token} : k.isKeyword "return" = true →
      semicolon.isSeparator ";" = true →
      Construct n (.node .returnStatement [.leaf k, .leaf semicolon])
  | returnValue {n : Nat} {k semicolon : Token} {items : List SyntaxTree} :
      k.isKeyword "return" = true → items ≠ [] → Items n false items →
      semicolon.isSeparator ";" = true →
      Construct n (.node .returnStatement [.leaf k, .node .expression items, .leaf semicolon])
  | jump {n : Nat} {k semicolon : Token} :
      k.isKeyword "break" = true ∨ k.isKeyword "continue" = true →
      semicolon.isSeparator ";" = true →
      Construct n (.node .jumpStatement [.leaf k, .leaf semicolon])
  | goto {n : Nat} {k label semicolon : Token} : k.isKeyword "goto" = true →
      label.isIdentifier = true → semicolon.isSeparator ";" = true →
      Construct n (.node .jumpStatement [.leaf k, .leaf label, .leaf semicolon])
  | label {n : Nat} {k colon : Token} {run : List Token} :
      k.isKeyword "case" = true ∨ k.isKeyword "default" = true →
      (∀ t ∈ run, t.isSeparator ":" = false ∧ t.endsExpression = false) →
      colon.isSeparator ":" = true →
      Construct n (.node .labelStatement (.leaf k :: run.map .leaf ++ [.leaf colon]))
  | control {n : Nat} {k opener closer : Token} {run : List Token} {b : SyntaxTree} :
      isControl k = true → opener.isSeparator "(" = true → Condition run →
      closer.isSeparator ")" = true → Body n b →
      Construct n (.node .controlStructure
        [.leaf k, .leaf opener, .node .condition (run.map .leaf), .leaf closer, b])
  | ifElse {n : Nat} {k opener closer other : Token} {run : List Token} {b b' : SyntaxTree} :
      k.isKeyword "if" = true → opener.isSeparator "(" = true → Condition run →
      closer.isSeparator ")" = true → Body n b → ¬ EndsOpen b → other.isKeyword "else" = true →
      Body n b' →
      Construct n (.node .controlStructure
        [.leaf k, .leaf opener, .node .condition (run.map .leaf), .leaf closer, b, .leaf other, b'])
  | doWhile {n : Nat} {k opener closer while_ semicolon : Token} {run : List Token}
      {b : SyntaxTree} :
      k.isKeyword "do" = true → Body n b → while_.isKeyword "while" = true →
      opener.isSeparator "(" = true → Condition run → closer.isSeparator ")" = true →
      semicolon.isSeparator ";" = true →
      Construct n (.node .controlStructure
        [.leaf k, b, .leaf while_, .leaf opener, .node .condition (run.map .leaf), .leaf closer,
         .leaf semicolon])
  | declaration {n : Nat} {type : List Token} {first more : List SyntaxTree} {semicolon : Token} :
      TypeSpec type → Declarator n first → Many (NextDeclarator n) more →
      semicolon.isSeparator ";" = true →
      Construct n (.node .declaration (type.map .leaf ++ first ++ more ++ [.leaf semicolon]))
  | expression {n : Nat} {t semicolon : Token} {items more : List SyntaxTree} :
      t.startsExpression = true → Items n false (.leaf t :: items) →
      Many (NextExpression n) more → semicolon.isSeparator ";" = true →
      Construct n (.node .expressionStatement
        (.node .expression (.leaf t :: items) :: more ++ [.leaf semicolon]))

end

/-- Prototypes, and definitions with a body. -/
inductive Function (n : Nat) : SyntaxTree → Prop
  | declaration {type run : List Token} {name opener closer semicolon : Token} :
      TypeSpec type → name.isIdentifier = true → opener.isSeparator "(" = true →
      Parameters run → closer.isSeparator ")" = true → semicolon.isSeparator ";" = true →
      Function n (.node .functionDeclaration (type.map .leaf ++
        [.leaf name, .leaf opener, .node .parameters (run.map .leaf), .leaf closer,
         .leaf semicolon]))
  | definition {type run : List Token} {name opener closer begins ends : Token}
      {body : List SyntaxTree} :
      TypeSpec type → name.isIdentifier = true → opener.isSeparator "(" = true →
      Parameters run → closer.isSeparator ")" = true → begins.isSeparator "\x7b" = true →
      (∀ b ∈ body, Statement n b) → ends.isSeparator "\x7d" = true →
      Function n (.node .functionDefinition (type.map .leaf ++
        [.leaf name, .leaf opener, .node .parameters (run.map .leaf), .leaf closer, .leaf begins,
         .node .functionBody body, .leaf ends]))

inductive Program (n : Nat) : SyntaxTree → Prop
  | mk {functions : List SyntaxTree} : (∀ f ∈ functions, Function n f) →
      Program n (.node .program functions)

end CAudit.Grammar
