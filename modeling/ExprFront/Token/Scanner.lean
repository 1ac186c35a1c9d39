import ExprFront.Token.Basic
import ExprFront.Token.Munch

/-! Reading a text token by token. A scanner holds the characters not yet read and their place; past
the last token it answers the end token forever. -/

namespace ExprFront

structure Scanner where
  rest : List Char
  position : Position
  deriving DecidableEq

namespace Scanner

def ofChars (cs : List Char) : Scanner := ⟨cs, .start⟩

def ofString (source : String) : Scanner := ofChars source.toList

/-- A scanner over the answers of a source of characters, one per request. The first absent
answer is the end of the text, whatever the source answers later. -/
def ofAnswers (answers : List (Option Char)) : Scanner :=
  ofChars ((answers.takeWhile Option.isSome).filterMap id)

/-- Whether no character is left, blanks included. -/
def atEnd (s : Scanner) : Bool := s.rest.isEmpty

/-- Moves past the blanks in front of the next token. -/
def skipBlanks (s : Scanner) : Scanner :=
  ⟨s.rest.dropWhile isBlank, s.position.pastAll (s.rest.takeWhile isBlank)⟩

/-- The next token before the end of the text, and the scanner past it. -/
def step? (s : Scanner) : Option (Token × Scanner) :=
  match s.skipBlanks.rest with
  | [] => none
  | c :: cs =>
    let m := Munch.ofCons c cs
    some (⟨m.kind, String.ofList m.taken, s.skipBlanks.position⟩,
      ⟨m.rest, s.skipBlanks.position.pastAll m.taken⟩)

/-- The next token, the end token included. -/
def next (s : Scanner) : Token × Scanner :=
  match s.step? with
  | none => (.eof s.skipBlanks.position, s.skipBlanks)
  | some r => r

/-- The next token, absent at the end of the text. -/
def next? (s : Scanner) : Option Token × Scanner :=
  match s.step? with
  | none => (none, s.skipBlanks)
  | some (t, s') => (some t, s')

/-- Every token takes something off the text. -/
theorem length_rest_lt {s s' : Scanner} {t : Token} (h : s.step? = some (t, s')) :
    s'.rest.length < s.rest.length := by
  have hb : s.skipBlanks.rest.length ≤ s.rest.length := (List.dropWhile_sublist _).length_le
  unfold step? at h
  split at h
  · cases h
  · rename_i c cs hcs
    have hm := Munch.length_rest_le c cs
    rw [hcs, List.length_cons] at hb
    cases h
    exact Nat.lt_of_le_of_lt hm (Nat.lt_of_succ_le hb)

/-- All tokens before the end of the text, after those in `acc` (latest first). -/
def drainInto (acc : List Token) (s : Scanner) : List Token × Scanner :=
  match _h : s.step? with
  | none => (acc.reverse, s.skipBlanks)
  | some (t, s') => drainInto (t :: acc) s'
termination_by s.rest.length
decreasing_by exact length_rest_lt _h

/-- All tokens before the end of the text, and the scanner at its end. -/
def drain (s : Scanner) : List Token × Scanner := drainInto [] s

end Scanner

/-- The tokens of a text, the end token last. -/
def tokenize (source : String) : List Token :=
  let (tokens, finish) := (Scanner.ofString source).drain
  tokens ++ [.eof finish.position]

end ExprFront
