import ExprFront.Position
import ExprFront.Text.Quoted
import ExprFront.Token.Kind

/-! Tokens: a kind, the characters it was read from, and where they start. A token has two written
forms, a short one for listings and one that names every field. -/

namespace ExprFront

/-- A token of a source text. -/
structure Token where
  kind : TokenKind
  literal : String
  position : Position
  deriving DecidableEq

namespace Token

/-- The token at the end of the text. -/
def eof (position : Position) : Token := ⟨.eof, "", position⟩

def textWith (hidden : Char → Bool) (t : Token) : String :=
  t.kind.name ++ " " ++ Text.quoteWith hidden t.literal ++ " (" ++ t.position.text ++ ")"

/-- A token in a listing. -/
def text (t : Token) : String := t.textWith Text.isHidden

def dumpWith (hidden : Char → Bool) (t : Token) : String :=
  "Token \x7b kind: " ++ t.kind.name ++ ", literal: " ++ Text.quoteWith hidden t.literal ++
    ", position: Position \x7b row: " ++ toString t.position.row ++ ", col: " ++
    toString t.position.col ++ " \x7d \x7d"

/-- A token with every field named. -/
def dump (t : Token) : String := t.dumpWith Text.isHidden

end Token

end ExprFront
