import CAudit.ParseTree

/-! Syntax trees: grammar constructs over the tokens of a source. -/
namespace CAudit

inductive Construct where
  | program | functionDefinition | functionDeclaration | parameters | functionBody
  | statement | block | emptyStatement | returnStatement | jumpStatement | labelStatement
  | controlStructure | condition | declaration | arraySize | initializerList
  | expressionStatement | expression
  deriving DecidableEq, Repr

def Construct.name : Construct → String
  | .program => "Program"
  | .functionDefinition => "FunctionDefinition"
  | .functionDeclaration => "FunctionDeclaration"
  | .parameters => "Parameters"
  | .functionBody => "FunctionBody"
  | .statement => "Statement"
  | .block => "Block"
  | .emptyStatement => "EmptyStatement"
  | .returnStatement => "ReturnStatement"
  | .jumpStatement => "JumpStatement"
  | .labelStatement => "LabelStatement"
  | .controlStructure => "ControlStructure"
  | .condition => "Condition"
  | .declaration => "Declaration"
  | .arraySize => "ArraySize"
  | .initializerList => "InitializerList"
  | .expressionStatement => "ExpressionStatement"
  | .expression => "Expression"

/-- A token, or a construct over subtrees. -/
inductive SyntaxTree where
  | leaf (t : Token)
  | node (c : Construct) (children : List SyntaxTree)
  deriving Repr

namespace SyntaxTree

mutual

/-- The tokens of a tree from left to right. -/
def tokens : SyntaxTree → List Token
  | .leaf t => [t]
  | .node _ ts => tokensAll ts

def tokensAll : List SyntaxTree → List Token
  | [] => []
  | t :: ts => t.tokens ++ tokensAll ts

end

mutual

/-- The tree with names and values in place of constructs and tokens. -/
def toParseTree : SyntaxTree → ParseTree
  | .leaf t => .terminal t
  | .node c ts => .nonTerminal c.name (toParseTrees ts)

def toParseTrees : List SyntaxTree → List ParseTree
  | [] => []
  | t :: ts => t.toParseTree :: toParseTrees ts

end

end SyntaxTree

end CAudit
