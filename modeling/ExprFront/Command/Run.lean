import ExprFront.Command.Args
import ExprFront.Command.Files
import ExprFront.Diagnostic.Caret

/-! What the command prints, and the code it ends with. The time that a file took is printed in the
largest unit of which there is at least one, with the decimals that are needed. -/

namespace ExprFront.Command

open Session (Mode)

/-- What a finished command leaves behind. -/
structure Outcome where
  exitCode : Nat
  stdout : ByteArray
  stderr : String

namespace Outcome

def success (stdout : String) : Outcome := ⟨0, stdout.toUTF8, ""⟩

/-- A command that ends with an error message, after some output. -/
def failure (stdout : ByteArray) (message : String) : Outcome :=
  ⟨1, stdout, "Error: " ++ message ++ "\n"⟩

end Outcome

def versionText : String := "0.1.0"

def versionOutcome : Outcome := .success ("brev " ++ versionText ++ "\n")

def helpOutcome : Outcome :=
  .success ("Lexer and parser front end for brev\n\n" ++
    "Usage: brev [OPTIONS] [FILE]\n\n" ++
    "Arguments:\n" ++
    "  [FILE]  Source file to process instead of starting the REPL\n\n" ++
    "Options:\n" ++
    "      --mode <MODE>  What to print for each line or file [default: ast]\n\n" ++
    "          Possible values:\n" ++
    "          - tokens: Print every token of the line\n" ++
    "          - ast:    Parse the line and print the rendered program\n\n" ++
    "  -h, --help         Print help\n" ++
    "  -V, --version      Print version\n")

def refusedOutcome : Outcome :=
  ⟨2, .empty, "error: invalid arguments\n\nUsage: brev [OPTIONS] [FILE]\n\n" ++
    "For more information, try '--help'.\n"⟩

/-! ### Times -/

/-- The digits of `n`, at least `width` of them, without the zeros at their end. -/
def decimals (width n : Nat) : String :=
  let digits := Nat.toDigits 10 n
  let padded := List.replicate (width - digits.length) '0' ++ digits
  String.ofList (padded.reverse.dropWhile (· == '0')).reverse

/-- So many units of `10 ^ width` nanoseconds each. -/
def inUnit (width : Nat) (unit : String) (nanoseconds : Nat) : String :=
  let size := Nat.pow 10 width
  let fraction := decimals width (nanoseconds % size)
  toString (nanoseconds / size) ++ (if fraction = "" then "" else "." ++ fraction) ++ unit

def elapsedText (nanoseconds : Nat) : String :=
  if 1000000000 ≤ nanoseconds then inUnit 9 "s" nanoseconds
  else if 1000000 ≤ nanoseconds then inUnit 6 "ms" nanoseconds
  else if 1000 ≤ nanoseconds then inUnit 3 "µs" nanoseconds
  else toString nanoseconds ++ "ns"

/-! ### Files -/

/-- A source text, processed. -/
inductive Result where
  | tokens (tokens : List Token)
  | tree (program : Program) (errors : List Diagnostic)

def process (mode : Mode) (source : String) : Result :=
  match mode with
  | .tokens => .tokens (tokenize source)
  | .tree =>
    match parse source with
    | (program, errors) => .tree program errors

/-- Appends reports, up to the first that cannot be laid out. -/
def appendReports (source : String) (out : String) : List Diagnostic → Option LayoutError × String
  | [] => (none, out)
  | d :: ds =>
    match d.report source with
    | .error e => (some e, out)
    | .ok text => appendReports source (out ++ text) ds

/-- The outcome for a file that took the time `elapsed` to process. -/
def Result.outcome (file source elapsed : String) : Result → Outcome
  | .tokens ts =>
    .success (String.join (ts.map fun t => t.text ++ "\n") ++ "Tokenized in " ++ elapsed ++ "\n")
  | .tree program [] => .success ("Parsed in " ++ elapsed ++ "\n" ++ program.render ++ "\n")
  | .tree _ errors =>
    match appendReports source ("Parsed in " ++ elapsed ++ "\n-> " ++ file ++ "\n") errors with
    | (none, out) => ⟨1, out.toUTF8, ""⟩
    | (some e, out) => ⟨101, out.toUTF8, e.message ++ "\n"⟩

def decodeFile (bytes : ByteArray) : Except FileError String :=
  match String.fromUTF8? bytes with
  | none => .error .invalidText
  | some source => .ok source

/-! ### The command -/

/-- The first line of a session. -/
def banner : String := "Brev Repl (" ++ versionText ++ ")\n"

/-- A session over the whole of the standard input. -/
def runSession (mode : Mode) (input : List UInt8) : Outcome :=
  match Session.run mode input ⟨banner.toUTF8, none⟩ with
  | (none, s) => ⟨0, s.written, ""⟩
  | (some failure, s) => .failure s.written failure.message

def runFile (mode : Mode) (file elapsed : String) (read : String → Except FileError ByteArray) :
    Outcome :=
  match read file >>= decodeFile with
  | .error e => .failure .empty e.message
  | .ok source => (process mode source).outcome file source elapsed

/-- The outcome of a command that can read files and a standard input. -/
def run (args : List String) (read : String → Except FileError ByteArray) (input : List UInt8)
    (elapsed : String) : Outcome :=
  match Request.ofArgs args with
  | .version => versionOutcome
  | .help => helpOutcome
  | .refused => refusedOutcome
  | .run mode none => runSession mode input
  | .run mode (some file) => runFile mode file elapsed read

end ExprFront.Command
