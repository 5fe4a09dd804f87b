import PathSearch.Text.Quoted

namespace PathSearch

/-- Why a file system operation fails. `linkLoop` is found by a walk that meets a directory it is
already in; the others are reported by the file system itself. -/
inductive FileCause where
  | missing
  | inputOutput
  | denied
  | notDirectory
  | isDirectory
  | tooManyOpen
  | tooManyLinks
  | linkLoop
  deriving DecidableEq, Repr

namespace FileCause

def number : FileCause → Nat
  | .missing => 2
  | .inputOutput => 5
  | .denied => 13
  | .notDirectory => 20
  | .isDirectory => 21
  | .tooManyOpen => 24
  | .tooManyLinks => 40
  | .linkLoop => 40

def text : FileCause → String
  | .missing => "No such file or directory"
  | .inputOutput => "Input/output error"
  | .denied => "Permission denied"
  | .notDirectory => "Not a directory"
  | .isDirectory => "Is a directory"
  | .tooManyOpen => "Too many open files"
  | .tooManyLinks => "Too many levels of symbolic links"
  | .linkLoop => "File system loop detected"

end FileCause

/-- A failed operation and, if it concerned one file, the path it was given. -/
structure FileError where
  cause : FileCause
  file : Option Text
  deriving DecidableEq, Repr

namespace FileError

def message (error : FileError) : String :=
  let reason := s!"[Errno {error.cause.number}] {error.cause.text}"
  match error.file with
  | none => reason
  | some file =>
      let shown := file.quoted.toString
      s!"{reason}: {shown}"

end FileError

/-- Why a call with a path gives no answer. A path with a NUL in it cannot be passed on, so that the file system is
not asked at all. -/
inductive CallError where
  | embeddedNul
  | failed (error : FileError)
  deriving DecidableEq, Repr

end PathSearch
