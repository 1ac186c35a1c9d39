/-! Files by path, and why one cannot be read. -/

namespace ExprFront.Command

inductive FileError where
  | notFound
  | notDirectory
  | isDirectory
  | nameTooLong
  | invalidText
  /-- Any other fault, in words. -/
  | other (text : String)
  deriving DecidableEq

def FileError.message : FileError → String
  | notFound => "No such file or directory (os error 2)"
  | notDirectory => "Not a directory (os error 20)"
  | isDirectory => "Is a directory (os error 21)"
  | nameTooLong => "File name too long (os error 36)"
  | invalidText => "stream did not contain valid UTF-8"
  | other text => text

/-- A directory that holds nothing but files. -/
structure Directory where
  files : List (String × ByteArray)

namespace Directory

/-- The longest name of a file, in bytes. -/
def maxName : Nat := 255

/-- Where a path has led so far. -/
inductive Place where
  | inside
  /-- In a directory above, which holds nothing else that is known. -/
  | outside
  | file (bytes : ByteArray)

/-- Follows one part of a path. -/
def enter (d : Directory) (place : Place) (part : String) : Except FileError Place :=
  match place with
  | .file _ => .error .notDirectory
  | .inside =>
    if part = "" ∨ part = "." then .ok .inside
    else if part = ".." then .ok .outside
    else if maxName < part.utf8ByteSize then .error .nameTooLong
    else
      match d.files.lookup part with
      | none => .error .notFound
      | some bytes => .ok (.file bytes)
  | .outside =>
    if part = "" ∨ part = "." ∨ part = ".." then .ok .outside
    else if maxName < part.utf8ByteSize then .error .nameTooLong
    else .error .notFound

/-- The bytes of the file at a path. A path that starts with a slash starts above the directory. -/
def read (d : Directory) (path : String) : Except FileError ByteArray :=
  let start : Place := if path.toList.head? = some '/' then .outside else .inside
  match (path.splitOn "/").foldlM d.enter start with
  | .error e => .error e
  | .ok (.file bytes) => .ok bytes
  | .ok _ => .error .isDirectory

end Directory

end ExprFront.Command
