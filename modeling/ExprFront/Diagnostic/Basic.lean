import ExprFront.Numeral
import ExprFront.Token.Basic

/-! What can be wrong with a source text, and how it is told: a name, a message, and a tip where
there is one to give. -/

namespace ExprFront

/-- Why an expression or statement could not be read. -/
inductive Cause where
  /-- The token starts no expression. -/
  | noPrefixRule (kind : TokenKind) (literal : String)
  /-- The numeral has no 64-bit value. -/
  | badInteger (literal : String) (error : NumeralError)
  /-- Another token was required. -/
  | unexpected (expected received : TokenKind)
  /-- The expression is nested deeper than the limit. -/
  | nestingTooDeep (limit : Nat)
  deriving DecidableEq

namespace Cause

def name : Cause → String
  | noPrefixRule _ _ => "NoPrefixParseRule"
  | badInteger _ _ => "IntParseError"
  | unexpected _ _ => "UnexpectedToken"
  | nestingTooDeep _ => "NestingTooDeep"

def message : Cause → String
  | noPrefixRule kind literal =>
    "no prefix parse rule for " ++ kind.name ++ " token " ++ Text.quote literal
  | badInteger literal error =>
    "could not parse " ++ Text.quote literal ++ " as int: " ++ error.message
  | unexpected expected received =>
    "expected next token " ++ expected.name ++ ", got " ++ received.name
  | nestingTooDeep limit => "expression nested deeper than " ++ toString limit ++ " levels"

/-- Advice for whoever wrote the source. -/
def tip? : Cause → Option String
  | noPrefixRule .illegal literal => some ("`" ++ literal ++ "` is not a recognised character")
  | noPrefixRule .eof _ => some "Expected an expression before end of input"
  | noPrefixRule _ literal => some ("`" ++ literal ++ "` cannot start an expression")
  | badInteger literal _ =>
    some ("Invalid integer: `" ++ literal ++ "`, is it above the 64-bit integer limit?")
  | unexpected _ _ => none
  | nestingTooDeep limit =>
    some ("Expressions may nest at most " ++ toString limit ++ " levels deep")

/-- The fault of the numeral behind a bad integer. -/
def root? : Cause → Option NumeralError
  | badInteger _ error => some error
  | _ => none

end Cause

/-- A cause, and the token that is to blame. -/
structure Diagnostic where
  cause : Cause
  token : Token
  deriving DecidableEq

namespace Diagnostic

def position (d : Diagnostic) : Position := d.token.position

/-- A diagnostic on one line. -/
def text (d : Diagnostic) : String := d.cause.message ++ " (" ++ d.position.text ++ ")"

end Diagnostic

end ExprFront
