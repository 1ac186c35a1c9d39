import ExprFront.Parser.State
import ExprFront.Tree.Basic

/-! Reading expressions by operator precedence. An expression starts by the prefix rule of its first
token; operators that bind tighter than asked for are then folded into it from the left. A reading
ends on the last token it took; where nothing can be read, it reports one fault and is absent. -/

namespace ExprFront.Parser

/-- A reading that takes the operators binding tighter than a power. -/
abbrev Reader := BindingPower → Parser → Option Expr × Parser

/-! ### What a token means -/

/-- The current token as a name. -/
def readName (p : Parser) : Option Expr × Parser :=
  (some (.ident ⟨p.current, p.current.literal⟩), p)

/-- The current token as a numeral. -/
def readInteger (p : Parser) : Option Expr × Parser :=
  match Numeral.read p.current.literal with
  | .ok value => (some (.int p.current value), p)
  | .error error => (none, p.report (.badInteger p.current.literal error) p.current)

/-- The current token as an operator before its operand. -/
def readUnary (sub : Reader) (p : Parser) : Option Expr × Parser :=
  match sub .unary p.advance with
  | (none, q) => (none, q)
  | (some operand, q) => (some (.unary p.current p.current.literal operand), q)

/-- The current token as the opening of a group. -/
def readGroup (sub : Reader) (p : Parser) : Option Expr × Parser :=
  match sub .lowest p.advance with
  | (none, q) => (none, q)
  | (some inner, q) =>
    match q.expectPeek .rParen with
    | (true, r) => (some inner, r)
    | (false, r) => (none, r)

/-- The current token as an operator after its left operand. Operators of one power group to the
left, because the right operand takes tighter ones only. -/
def readBinary (sub : Reader) (left : Expr) (p : Parser) : Option Expr × Parser :=
  match sub p.currentPower p.advance with
  | (none, q) => (none, q)
  | (some right, q) => (some (.binary p.current p.current.literal left right), q)

/-- What the prefix rule of the current token reads. -/
def readPrefix (rule : PrefixRule) (sub : Reader) (p : Parser) : Option Expr × Parser :=
  match rule with
  | .name => p.readName
  | .integer => p.readInteger
  | .operator => p.readUnary sub
  | .group => p.readGroup sub

/-- What the infix rule of the current token makes of its left operand. -/
def readInfix (rule : InfixRule) (sub : Reader) (left : Expr) (p : Parser) :
    Option Expr × Parser :=
  match rule with
  | .binary => p.readBinary sub left

/-! ### Expressions -/

/-- Folds the operators that follow into the operand before them, as long as they bind tighter than
`bp`, in at most one round for each token of `budget`. A round passes an operator. At the end of the
text, where the end token itself may be given an infix rule, a round that reads an operand changes
nothing, so that only one is made there. -/
def foldInfix (sub : Reader) (bp : BindingPower) (budget : List Token) (left : Expr) (p : Parser) :
    Option Expr × Parser :=
  match budget with
  | [] => (some left, p)
  | _ :: budget =>
    if bp < p.peekPower then
      match p.rules.infixRule p.peek.kind with
      | none => (some left, p)
      | some rule =>
        match p.advance.readInfix rule sub left with
        | (none, q) => (none, q)
        | (some left, q) => foldInfix sub bp budget left q
    else (some left, p)

/-- An expression whose nested expressions are read by `sub`. -/
def readNested (sub : Reader) (bp : BindingPower) (p : Parser) : Option Expr × Parser :=
  match p.rules.prefixRule p.current.kind with
  | none => (none, p.report (.noPrefixRule p.current.kind p.current.literal) p.current)
  | some rule =>
    match p.readPrefix rule sub with
    | (none, q) => (none, q)
    | (some left, q) => foldInfix sub bp (q.eof :: q.ahead) left q

/-- An expression that may hold only so many levels of expressions, itself among them. -/
def readWithin : Nat → Reader
  | 0, _, p => (none, p.report (.nestingTooDeep maxDepth) p.current)
  | levels + 1, bp, p =>
    match readNested (readWithin levels) bp p.enter with
    | (e, q) => (e, q.exit)

/-- An expression of the operators that bind tighter than `bp`, from the current token on. -/
def readExpr (bp : BindingPower) (p : Parser) : Option Expr × Parser :=
  readWithin (maxDepth - p.depth) bp p

end ExprFront.Parser
