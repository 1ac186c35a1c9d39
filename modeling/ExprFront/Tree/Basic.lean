import ExprFront.Token.Basic

/-! Syntax trees. Every node keeps the token that introduced it, beside the name, value or operator
that the node stands for. The written form of a tree has no parentheses, no blanks inside an
expression, integers in decimal, and one statement a line. -/

namespace ExprFront

/-- A name. -/
structure Identifier where
  token : Token
  name : String
  deriving DecidableEq

inductive Expr where
  | ident (id : Identifier)
  | int (token : Token) (value : Int64)
  | unary (token : Token) (operator : String) (operand : Expr)
  | binary (token : Token) (operator : String) (left right : Expr)
  deriving DecidableEq

inductive Statement where
  /-- `name = value`, introduced by its `=`. -/
  | assignment (token : Token) (name : Identifier) (value : Expr)
  /-- An expression by itself, introduced by its first token. -/
  | expression (token : Token) (expr : Expr)
  deriving DecidableEq

def Statement.token : Statement → Token
  | .assignment token _ _ => token
  | .expression token _ => token

/-- Statements in the order of the source. -/
structure Program where
  statements : List Statement
  deriving DecidableEq

/-- The literal of the token that introduced the first statement. -/
def Program.literal (program : Program) : String :=
  match program.statements with
  | [] => ""
  | statement :: _ => statement.token.literal

/-! ### Written forms -/

def Expr.render : Expr → String
  | .ident id => id.name
  | .int _ value => toString value.toInt
  | .unary _ operator operand => operator ++ operand.render
  | .binary _ operator left right => left.render ++ operator ++ right.render

def Statement.render : Statement → String
  | .assignment _ name value => name.name ++ " = " ++ value.render
  | .expression _ expr => expr.render

def Program.render (program : Program) : String :=
  String.intercalate "\n" (program.statements.map Statement.render)

end ExprFront
