/-! The kinds of token, with the keyword and the one-character operators that fix some of them. -/

namespace ExprFront

/-- What a token stands for. -/
inductive TokenKind where
  | ident | number | eof | illegal
  | assign | equal | notEqual | bang
  | plus | minus | star | slash | percent
  | less | greater
  | lParen | rParen | lBrace | rBrace | comma
  | function
  deriving DecidableEq

namespace TokenKind

def all : List TokenKind :=
  [.ident, .number, .eof, .illegal, .assign, .equal, .notEqual, .bang, .plus, .minus, .star,
    .slash, .percent, .less, .greater, .lParen, .rParen, .lBrace, .rBrace, .comma, .function]

/-- The name of a kind in dumps and messages. -/
def name : TokenKind → String
  | ident => "Ident"
  | number => "Number"
  | eof => "Eof"
  | illegal => "Illegal"
  | assign => "Assign"
  | equal => "Eq"
  | notEqual => "NotEq"
  | bang => "Bang"
  | plus => "Add"
  | minus => "Sub"
  | star => "Asterisk"
  | slash => "Slash"
  | percent => "Percent"
  | less => "Lt"
  | greater => "Gt"
  | lParen => "LParen"
  | rParen => "RParen"
  | lBrace => "LBrace"
  | rBrace => "RBrace"
  | comma => "Comma"
  | function => "Function"

/-- The kind of a reserved word; every other word is an identifier. -/
def keyword? (word : String) : Option TokenKind := if word = "fn" then some function else none

/-- The kind of a character that is a token by itself. -/
def ofChar? : Char → Option TokenKind
  | '=' => some assign
  | '+' => some plus
  | '-' => some minus
  | '*' => some star
  | '/' => some slash
  | '%' => some percent
  | '<' => some less
  | '>' => some greater
  | '!' => some bang
  | '\x7b' => some lBrace
  | '\x7d' => some rBrace
  | '(' => some lParen
  | ')' => some rParen
  | ',' => some comma
  | _ => none

end TokenKind

end ExprFront
