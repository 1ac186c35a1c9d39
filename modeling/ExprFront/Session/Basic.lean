import ExprFront.Parser.Program

/-! Line by line sessions. Each line is read by itself, its answer is followed by the next prompt, and
the session ends with the input, at a line that is no text, or when its output is full. -/

namespace ExprFront.Session

/-! ### Lines

A line ends at a line feed, and one carriage return directly before that line feed belongs to its
end; the last line need not end. -/

def lineFeed : UInt8 := 10

def carriageReturn : UInt8 := 13

/-- The bytes of a line without one carriage return at its end. -/
def dropReturn (line : List UInt8) : List UInt8 :=
  if line.getLast? = some carriageReturn then line.dropLast else line

/-- The first line of a stream, without its end, and what follows it. -/
def cutLine (input : List UInt8) : List UInt8 × List UInt8 :=
  match input.dropWhile (· != lineFeed) with
  | [] => (input, [])
  | _ :: rest => (dropReturn (input.takeWhile (· != lineFeed)), rest)

theorem length_cutLine_lt {input : List UInt8} (h : input ≠ []) :
    (cutLine input).2.length < input.length := by
  have hd : (input.dropWhile (· != lineFeed)).length ≤ input.length :=
    (List.dropWhile_sublist _).length_le
  have hp := List.length_pos_iff.2 h
  unfold cutLine
  split
  · exact hp
  · rename_i hr
    rw [hr] at hd
    exact hd

/-- The lines of a stream, without their ends. -/
def lines (input : List UInt8) : List (List UInt8) :=
  if _h : input = [] then []
  else (cutLine input).1 :: lines (cutLine input).2
termination_by input.length
decreasing_by exact length_cutLine_lt _h

/-! ### Output -/

/-- A sequence of bytes that may have room for only so many. -/
structure Sink where
  written : ByteArray
  /-- The number of bytes there is room for, if there is a bound. -/
  capacity? : Option Nat

namespace Sink

def unbounded : Sink := ⟨.empty, none⟩

def bounded (capacity : Nat) : Sink := ⟨.empty, some capacity⟩

/-- Writes a text, or as much of it as there is room for; tells whether all of it fit. -/
def write (s : Sink) (text : String) : Bool × Sink :=
  let bytes := s.written ++ text.toUTF8
  match s.capacity? with
  | none => (true, { s with written := bytes })
  | some n =>
    if bytes.size ≤ n then (true, { s with written := bytes })
    else (false, { s with written := bytes.extract 0 n })

/-- Writes texts in order, up to the first that does not fit. -/
def writeAll (s : Sink) : List String → Bool × Sink
  | [] => (true, s)
  | text :: texts =>
    match s.write text with
    | (true, s) => s.writeAll texts
    | (false, s) => (false, s)

end Sink

/-! ### Sessions -/

/-- What is shown of a source text. -/
inductive Mode where
  /-- Its tokens. -/
  | tokens
  /-- Its program. -/
  | tree
  deriving DecidableEq

/-- Why a session ends before its input. -/
inductive Failure where
  /-- A line is not valid UTF-8. -/
  | invalidText
  /-- The output has no room left. -/
  | outputFull
  deriving DecidableEq

def Failure.message : Failure → String
  | invalidText => "stream did not contain valid UTF-8"
  | outputFull => "failed to write whole buffer"

def prompt : String := ">> "

/-- The lines that answer a line: its tokens; or its faults, and without faults its program, if there
is any. -/
def answer (mode : Mode) (line : String) : List String :=
  match mode with
  | .tokens => (Scanner.ofString line).drain.1.map Token.dump
  | .tree =>
    match parse line with
    | (⟨[]⟩, []) => []
    | (program, []) => [program.render]
    | (_, errors) => errors.map Diagnostic.text

/-- The text of a line, if it is valid UTF-8. -/
def decode? (line : List UInt8) : Option String := String.fromUTF8? line.toByteArray

/-- What is written after a line: its answer, each line ended, and the next prompt. -/
def reply (mode : Mode) (line : String) : List String :=
  (answer mode line).map (· ++ "\n") ++ [prompt]

def runLines (mode : Mode) (lines : List (List UInt8)) (s : Sink) : Option Failure × Sink :=
  match lines with
  | [] => (none, s)
  | line :: lines =>
    match decode? line with
    | none => (some .invalidText, s)
    | some text =>
      match s.writeAll (reply mode text) with
      | (false, s) => (some .outputFull, s)
      | (true, s) => runLines mode lines s

/-- A session over an input: why it failed, if it did, and its output. -/
def run (mode : Mode) (input : List UInt8) (s : Sink) : Option Failure × Sink :=
  match s.write prompt with
  | (false, s) => (some .outputFull, s)
  | (true, s) => runLines mode (lines input) s

end ExprFront.Session
