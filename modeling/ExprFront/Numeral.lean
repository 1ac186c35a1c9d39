/-! Integer numerals and their 64-bit values. A numeral that starts with `0` and goes on in digits
is octal, or hexadecimal or binary when a letter says so, and may hold underscores; any other is
decimal and may hold a sign. -/

namespace ExprFront

/-- Why a text is no numeral. -/
inductive NumeralError where
  | empty | invalidDigit | tooLarge | tooSmall
  deriving DecidableEq

def NumeralError.message : NumeralError → String
  | empty => "cannot parse integer from empty string"
  | invalidDigit => "invalid digit found in string"
  | tooLarge => "number too large to fit in target type"
  | tooSmall => "number too small to fit in target type"

namespace Numeral

inductive Sign where
  | plus | minus
  deriving DecidableEq

/-- The greatest magnitude that fits 64 bits under a sign. -/
def Sign.limit : Sign → Nat
  | plus => 0x7fffffffffffffff
  | minus => 0x8000000000000000

/-- The error for a magnitude above the limit. -/
def Sign.overflow : Sign → NumeralError
  | plus => .tooLarge
  | minus => .tooSmall

def Sign.apply : Sign → Nat → Int
  | plus, n => n
  | minus, n => -n

/-- A text taken apart: the sign it shows, its radix, and what should be its digits. -/
structure Spelling where
  sign? : Option Sign
  radix : Nat
  digits : List Char
  deriving DecidableEq

/-- The characters allowed after the `0` of a numeral with a radix. -/
def isBodyChar (c : Char) : Bool :=
  c.isDigit || ('a' ≤ c && c ≤ 'f') || ('A' ≤ c && c ≤ 'F') || c == '_'

/-- The radix that a letter after the `0` stands for. -/
def markedRadix? : Char → Option Nat
  | 'x' | 'X' => some 16
  | 'o' | 'O' => some 8
  | 'b' | 'B' => some 2
  | _ => none

/-- The radix and the body of a text that starts with `0`. A letter is the mark of a radix
if a body is left after it; otherwise `b` may still be a digit of the body. -/
def radixBody? : List Char → Option (Nat × List Char)
  | '0' :: c :: cs =>
    match markedRadix? c with
    | some radix =>
      if !cs.isEmpty && cs.all isBodyChar then some (radix, cs)
      else if (c :: cs).all isBodyChar then some (8, c :: cs)
      else none
    | none => if (c :: cs).all isBodyChar then some (8, c :: cs) else none
  | _ => none

def spelling (cs : List Char) : Spelling :=
  match radixBody? cs with
  | some (radix, body) => ⟨none, radix, body.filter (· != '_')⟩
  | none =>
    match cs with
    | '+' :: ds => ⟨some .plus, 10, ds⟩
    | '-' :: ds => ⟨some .minus, 10, ds⟩
    | ds => ⟨none, 10, ds⟩

/-- The value of a digit, if it is one of the radix. -/
def digitValue? (radix : Nat) (c : Char) : Option Nat :=
  let value :=
    if c.isDigit then c.toNat - '0'.toNat
    else if c.isLower then c.toNat - 'a'.toNat + 10
    else if c.isUpper then c.toNat - 'A'.toNat + 10
    else radix
  if value < radix then some value else none

/-- Reads digits after a magnitude already read. The first character that is no digit or brings
the magnitude above the limit decides the error. -/
def readDigits (sign : Sign) (radix : Nat) : Nat → List Char → Except NumeralError Nat
  | n, [] => .ok n
  | n, c :: cs =>
    match digitValue? radix c with
    | none => .error .invalidDigit
    | some d =>
      if n * radix + d ≤ sign.limit then readDigits sign radix (n * radix + d) cs
      else .error sign.overflow

def Spelling.value (s : Spelling) : Except NumeralError Int64 :=
  match s.digits, s.sign? with
  | [], none => .error .empty
  | [], some _ => .error .invalidDigit
  | c :: cs, sign? =>
    let sign := sign?.getD .plus
    match readDigits sign s.radix 0 (c :: cs) with
    | .ok n => .ok (.ofInt (sign.apply n))
    | .error e => .error e

/-- The value of a numeral. -/
def read (text : String) : Except NumeralError Int64 := (spelling text.toList).value

end Numeral

end ExprFront
