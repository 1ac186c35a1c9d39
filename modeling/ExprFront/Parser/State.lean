import ExprFront.Diagnostic.Basic
import ExprFront.Precedence.Rules
import ExprFront.Token.Scanner

/-! The state of a parser: the tokens ahead of it, its rules, what it has found wrong so far, and how
many expressions it is inside of. It looks at two tokens, the current one and the one after. -/

namespace ExprFront

structure Parser where
  /-- The tokens not yet passed, the current one first, without the end token. -/
  ahead : List Token
  /-- Where the end token stands. -/
  finish : Position
  rules : Rules
  /-- The faults found, latest first. -/
  faults : List Diagnostic
  /-- The number of expressions being read. -/
  depth : Nat

namespace Parser

/-- The deepest nesting of expressions that is read. -/
def maxDepth : Nat := 256

/-- A parser at the start of a text, under the rules of the language. -/
def ofString (source : String) : Parser :=
  let (tokens, s) := (Scanner.ofString source).drain
  ⟨tokens, s.position, .standard, [], 0⟩

def eof (p : Parser) : Token := .eof p.finish

/-- The token under the parser, which is the end token once all others are passed. -/
def current (p : Parser) : Token := p.ahead.headD p.eof

/-- The token after the current one. -/
def peek (p : Parser) : Token := p.ahead.tail.headD p.eof

/-- Moves on by one token; at the end nothing changes. -/
def advance (p : Parser) : Parser := { p with ahead := p.ahead.tail }

def report (p : Parser) (cause : Cause) (token : Token) : Parser :=
  { p with faults := ⟨cause, token⟩ :: p.faults }

/-- The faults found, in the order they were found in. -/
def errors (p : Parser) : List Diagnostic := p.faults.reverse

/-- Moves onto the next token if it has the kind, and reports it otherwise. -/
def expectPeek (p : Parser) (kind : TokenKind) : Bool × Parser :=
  if p.peek.kind = kind then (true, p.advance)
  else (false, p.report (.unexpected kind p.peek.kind) p.peek)

def currentPower (p : Parser) : BindingPower := p.rules.power p.current.kind

def peekPower (p : Parser) : BindingPower := p.rules.power p.peek.kind

def enter (p : Parser) : Parser := { p with depth := p.depth + 1 }

def exit (p : Parser) : Parser := { p with depth := p.depth - 1 }

def registerPrefix (p : Parser) (kind : TokenKind) (rule : PrefixRule) : Parser :=
  { p with rules := p.rules.registerPrefix kind rule }

def registerInfix (p : Parser) (kind : TokenKind) (power : BindingPower) (rule : InfixRule) :
    Parser :=
  { p with rules := p.rules.registerInfix kind power rule }

end Parser

end ExprFront
