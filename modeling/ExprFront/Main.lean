import ExprFront.Command.Run

/-! The command: reads the arguments, the file or the standard input, and prints what the library
answers. -/

namespace ExprFront.Command

open Session (Mode)

/-- The system's faults as this command words them. A path that leads through a file fails when it is
opened and is named then; a directory fails when it is read. -/
def FileError.ofSystem : IO.Error → FileError
  | .noFileOrDirectory _ _ _ => .notFound
  | .inappropriateType (some _) _ _ => .notDirectory
  | .inappropriateType none _ _ => .isDirectory
  | e => .other (toString e)

def readFile (name : String) : IO (Except FileError ByteArray) := do
  try
    return .ok (← IO.FS.readBinFile name)
  catch e =>
    return .error (.ofSystem e)

/-- Prints an outcome and gives its exit code. -/
def Outcome.finish (o : Outcome) : IO UInt32 := do
  let stdout ← IO.getStdout
  stdout.write o.stdout
  stdout.flush
  IO.eprint o.stderr
  return o.exitCode.toUInt32

/-- Reads up to and including the next line feed. -/
partial def readLine (input : IO.FS.Stream) (line : ByteArray) : IO ByteArray := do
  let byte ← input.read 1
  if byte.isEmpty then return line
  else if byte.toList = [Session.lineFeed] then return line ++ byte
  else readLine input (line ++ byte)

/-- Answers line after line. -/
partial def interact (mode : Mode) (input output : IO.FS.Stream) : IO Outcome := do
  let bytes ← readLine input .empty
  if bytes.isEmpty then return .success ""
  else
    match Session.decode? (Session.cutLine bytes.toList).1 with
    | none => return .failure .empty Session.Failure.invalidText.message
    | some line =>
      output.putStr (String.join (Session.reply mode line))
      output.flush
      interact mode input output

def startSession (mode : Mode) : IO Outcome := do
  let stdout ← IO.getStdout
  stdout.putStr (banner ++ Session.prompt)
  stdout.flush
  interact mode (← IO.getStdin) stdout

def processFile (mode : Mode) (file : String) : IO Outcome := do
  match (← readFile file) >>= decodeFile with
  | .error e => return .failure .empty e.message
  | .ok source =>
    let start ← IO.monoNanosNow
    let result ← IO.lazyPure fun _ => process mode source
    let stop ← IO.monoNanosNow
    return result.outcome file source (elapsedText (stop - start))

end ExprFront.Command

open ExprFront.Command in
def main (args : List String) : IO UInt32 := do
  let outcome ← match Request.ofArgs args with
    | .version => pure versionOutcome
    | .help => pure helpOutcome
    | .refused => pure refusedOutcome
    | .run mode none => startSession mode
    | .run mode (some file) => processFile mode file
  outcome.finish
