import ExprFront.Token.Kind

/-! The longest token at the front of a text that starts with no blank: a word, a run of digits, a
two-character operator, or a single character. -/

namespace ExprFront

/-- The characters between tokens. -/
def isBlank (c : Char) : Bool := c == ' ' || c == '\t' || c == '\n' || c == '\r'

/-- ASCII letters and the underscore start a word. -/
def isWordStart (c : Char) : Bool := c.isAlpha || c == '_'

def isWordChar (c : Char) : Bool := isWordStart c || c.isDigit

/-- A token cut off the front of a text. -/
structure Munch where
  kind : TokenKind
  taken : List Char
  rest : List Char

namespace Munch

/-- A word, reserved or not. -/
def word (c : Char) (cs : List Char) : Munch :=
  let taken := c :: cs.takeWhile isWordChar
  ⟨(TokenKind.keyword? (String.ofList taken)).getD .ident, taken, cs.dropWhile isWordChar⟩

/-- A run of digits. -/
def number (c : Char) (cs : List Char) : Munch :=
  ⟨.number, c :: cs.takeWhile Char.isDigit, cs.dropWhile Char.isDigit⟩

/-- An operator of one character, or a character that starts no token. -/
def single (c : Char) (cs : List Char) : Munch :=
  ⟨(TokenKind.ofChar? c).getD .illegal, [c], cs⟩

/-- An operator that is longer when `=` follows. -/
def withEqual (kind : TokenKind) (c : Char) : List Char → Munch
  | '=' :: cs => ⟨kind, [c, '='], cs⟩
  | cs => single c cs

/-- The token that starts with `c` when `cs` follows. -/
def ofCons (c : Char) (cs : List Char) : Munch :=
  if isWordStart c then word c cs
  else if c.isDigit then number c cs
  else if c = '!' then withEqual .notEqual c cs
  else if c = '=' then withEqual .equal c cs
  else single c cs

theorem exists_taken_withEqual (kind : TokenKind) (c : Char) (cs : List Char) :
    ∃ ds, (withEqual kind c cs).taken = c :: ds ∧ ds ++ (withEqual kind c cs).rest = cs := by
  unfold withEqual
  split
  · exact ⟨['='], rfl, rfl⟩
  · exact ⟨[], rfl, rfl⟩

/-- A token takes the first character and perhaps some of those after it. -/
theorem exists_taken (c : Char) (cs : List Char) :
    ∃ ds, (ofCons c cs).taken = c :: ds ∧ ds ++ (ofCons c cs).rest = cs := by
  unfold ofCons
  split
  · exact ⟨_, rfl, List.takeWhile_append_dropWhile⟩
  · split
    · exact ⟨_, rfl, List.takeWhile_append_dropWhile⟩
    · split
      · exact exists_taken_withEqual _ _ _
      · split
        · exact exists_taken_withEqual _ _ _
        · exact ⟨[], rfl, rfl⟩

/-- Nothing is lost. -/
theorem taken_append_rest (c : Char) (cs : List Char) :
    (ofCons c cs).taken ++ (ofCons c cs).rest = c :: cs := by
  obtain ⟨ds, ht, hr⟩ := exists_taken c cs
  rw [ht, List.cons_append, hr]

theorem length_rest_le (c : Char) (cs : List Char) : (ofCons c cs).rest.length ≤ cs.length := by
  obtain ⟨ds, -, hr⟩ := exists_taken c cs
  have := congrArg List.length hr
  rw [List.length_append] at this
  omega

end Munch

end ExprFront
