import ExprFront.Parser.Expr

/-! Reading statements and whole programs. A statement that cannot be read is left out of the
program, and the reading goes on behind the token it stopped at. -/

namespace ExprFront.Parser

/-- `name = value`, from the name on. -/
def readAssignment (p : Parser) : Option Statement × Parser :=
  match p.expectPeek .assign with
  | (false, q) => (none, q)
  | (true, q) =>
    match q.advance.readExpr .lowest with
    | (none, r) => (none, r)
    | (some value, r) => (some (.assignment q.current ⟨p.current, p.current.literal⟩ value), r)

/-- An expression by itself. -/
def readExpression (p : Parser) : Option Statement × Parser :=
  match p.readExpr .lowest with
  | (none, q) => (none, q)
  | (some e, q) => (some (.expression p.current e), q)

/-- A name before `=` starts an assignment, and any other token an expression. -/
def readStatement (p : Parser) : Option Statement × Parser :=
  if p.current.kind = .ident ∧ p.peek.kind = .assign then p.readAssignment else p.readExpression

/-- Reads statements up to the end, after those in `acc` (latest first). Each round passes a token,
so that a round for each token of `budget`, the tokens ahead at the first of them, is enough. -/
def readStatements (budget : List Token) (acc : List Statement) (p : Parser) :
    List Statement × Parser :=
  match budget with
  | [] => (acc.reverse, p)
  | _ :: budget =>
    if p.current.kind = .eof then (acc.reverse, p)
    else
      match p.readStatement with
      | (none, q) => readStatements budget acc q.advance
      | (some statement, q) => readStatements budget (statement :: acc) q.advance

/-- The statements from the current token to the end. -/
def readProgram (p : Parser) : Program × Parser :=
  match readStatements p.ahead [] p with
  | (statements, q) => (⟨statements⟩, q)

end ExprFront.Parser

namespace ExprFront

/-- The program of a source text, and the faults found in it, in the order of the source. -/
def parse (source : String) : Program × List Diagnostic :=
  match (Parser.ofString source).readProgram with
  | (program, p) => (program, p.errors)

end ExprFront
