import ExprFront.Diagnostic.Basic
import ExprFront.Text.Classes

/-! Diagnostics shown against the source: the line they are about, and below it a caret under the
first character of the token to blame. -/

namespace ExprFront

/-- A report that cannot be laid out. -/
inductive LayoutError where
  /-- A column is wider than `Caret.maxWidth`. -/
  | widthOutOfRange
  deriving DecidableEq

def LayoutError.message : LayoutError → String
  | widthOutOfRange => "Formatting argument out of range"

namespace Caret

/-- The widest column that can be padded. -/
def maxWidth : Nat := 65535

/-- The blanks that indent a line. -/
def isIndent (c : Char) : Bool := c == ' ' || c == '\t'

/-- A character after enough fillers to end in the given column. -/
def padLeft (fill : Char) (width : Nat) (c : Char) : List Char :=
  List.replicate (width - 1) fill ++ [c]

/-- The column of the caret, counted from one, once the indent of the line is cut off. -/
def width (line : List Char) (col : Nat) : Nat := col - (line.takeWhile isIndent).length + 1

/-- The source line as it is shown. -/
def shown (line : List Char) : List Char := Text.trimEnd (line.dropWhile isIndent)

end Caret

namespace Diagnostic

/-- The first line of a report: the name, and the tip in parentheses. -/
def title (d : Diagnostic) : String :=
  "Error: " ++ d.cause.name ++
    match d.cause.tip? with
    | none => ""
    | some tip => " (" ++ tip ++ ")"

/-- The margin beside a line that shows no source. -/
def margin (row : Nat) : String :=
  String.ofList (Caret.padLeft ' ' ((toString row).length + 2) '|')

/-- The five lines of a report about a source line. -/
def reportLines (d : Diagnostic) (line : List Char) : List String :=
  [d.title,
    "-> " ++ d.position.text,
    margin d.position.row,
    toString d.position.row ++ " | " ++ String.ofList (Caret.shown line),
    margin d.position.row ++ " " ++
      String.ofList (Caret.padLeft '-' (Caret.width line d.position.col) '^')]

/-- A diagnostic with its source line, each line ended; refused when the caret is too far out. -/
def report (d : Diagnostic) (source : String) : Except LayoutError String :=
  let line := (Source.rowOf d.position.row source.toList).getD []
  if Caret.width line d.position.col ≤ Caret.maxWidth then
    .ok (String.join ((d.reportLines line).map (· ++ "\n")))
  else .error .widthOutOfRange

end Diagnostic

end ExprFront
