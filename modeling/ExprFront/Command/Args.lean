import ExprFront.Session.Basic

/-! The arguments of the command, read from left to right: options may stand before and after the
file, `--` ends them, and the first argument that settles the matter does. -/

namespace ExprFront.Command

open Session (Mode)

/-- What the arguments ask for. -/
inductive Request where
  | version
  | help
  /-- The arguments are refused. -/
  | refused
  /-- To process a file, or without one the standard input as a session. -/
  | run (mode : Mode) (file? : Option String)
  deriving DecidableEq

def modeOfName? : String → Option Mode
  | "tokens" => some .tokens
  | "ast" => some .tree
  | _ => none

/-- The settings read so far; each may be given once. -/
structure Settings where
  mode? : Option Mode
  file? : Option String
  deriving DecidableEq

namespace Settings

def empty : Settings := ⟨none, none⟩

def request (s : Settings) : Request := .run (s.mode?.getD .tree) s.file?

def setMode? (s : Settings) (name : String) : Option Settings :=
  match s.mode?, modeOfName? name with
  | none, some mode => some { s with mode? := some mode }
  | _, _ => none

/-- A file needs a name, and there is at most one. -/
def setFile? (s : Settings) (name : String) : Option Settings :=
  match s.file? with
  | none => if name = "" then none else some { s with file? := some name }
  | some _ => none

/-- Reads arguments that are all files. -/
def readFiles (s : Settings) : List String → Request
  | [] => s.request
  | arg :: args =>
    match s.setFile? arg with
    | none => .refused
    | some s => s.readFiles args

end Settings

/-- What an argument is. -/
inductive Arg where
  | endOfOptions
  | version
  | help
  /-- The mode option, with its value if that stands in the same argument. -/
  | mode (value? : Option String)
  | unknown
  | file (name : String)
  deriving DecidableEq

/-- An argument is an option if it starts with a dash and is longer than that. Of several one-letter
options in one argument the first decides. -/
def Arg.ofString (arg : String) : Arg :=
  match arg.toList with
  | ['-', '-'] => .endOfOptions
  | '-' :: '-' :: cs =>
    match String.ofList (cs.takeWhile (· != '=')), cs.dropWhile (· != '=') with
    | "version", [] => .version
    | "help", [] => .help
    | "mode", [] => .mode none
    | "mode", _ :: value => .mode (some (String.ofList value))
    | _, _ => .unknown
  | '-' :: 'V' :: _ => .version
  | '-' :: 'h' :: _ => .help
  | '-' :: _ :: _ => .unknown
  | _ => .file arg

/-- Reads arguments that may be options. -/
def Settings.readArgs (s : Settings) : List String → Request
  | [] => s.request
  | arg :: args =>
    match Arg.ofString arg with
    | .endOfOptions => s.readFiles args
    | .version => .version
    | .help => .help
    | .unknown => .refused
    | .file name =>
      match s.setFile? name with
      | none => .refused
      | some s => s.readArgs args
    | .mode (some value) =>
      match s.setMode? value with
      | none => .refused
      | some s => s.readArgs args
    | .mode none =>
      match args with
      | [] => .refused
      | value :: args =>
        match s.setMode? value with
        | none => .refused
        | some s => s.readArgs args

/-- What the arguments of a command ask for. -/
def Request.ofArgs (args : List String) : Request := Settings.empty.readArgs args

end ExprFront.Command
