/-! Places in a source text, counted from zero in characters, and the rows that they are in. Each
line feed and each carriage return ends a row, so that a pair of them ends two. -/

namespace ExprFront

/-- A row, and a column within it. -/
structure Position where
  row : Nat
  col : Nat
  deriving DecidableEq

/-- The characters that end a row. -/
def isLineBreak (c : Char) : Bool := c == '\n' || c == '\r'

namespace Position

def start : Position := ⟨0, 0⟩

/-- The place after one more character. -/
def past (p : Position) (c : Char) : Position :=
  if isLineBreak c then ⟨p.row + 1, 0⟩ else ⟨p.row, p.col + 1⟩

/-- The place after a run of characters. -/
def pastAll (p : Position) (cs : List Char) : Position := cs.foldl past p

@[simp] theorem pastAll_nil (p : Position) : p.pastAll [] = p := rfl

@[simp] theorem pastAll_cons (p : Position) (c : Char) (cs : List Char) :
    p.pastAll (c :: cs) = (p.past c).pastAll cs := rfl

theorem pastAll_append (p : Position) (cs ds : List Char) :
    p.pastAll (cs ++ ds) = (p.pastAll cs).pastAll ds := List.foldl_append

def text (p : Position) : String := "line: " ++ toString p.row ++ " col: " ++ toString p.col

end Position

/-! ### Rows -/

namespace Source

/-- The characters of a row, up to the line break that ends it; absent past the last row. -/
def rowOf : Nat → List Char → Option (List Char)
  | 0, cs => some (cs.takeWhile fun c => !isLineBreak c)
  | row + 1, cs =>
    match cs.dropWhile fun c => !isLineBreak c with
    | [] => none
    | _ :: rest => rowOf row rest

/-- The text of a row, without the line break that ends it. -/
def lineAt (source : String) (row : Nat) : Option String :=
  (rowOf row source.toList).map String.ofList

end Source

end ExprFront
