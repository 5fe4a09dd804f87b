import PathSearch.Command.Flag
import PathSearch.Number.Whole

namespace PathSearch

/-- Why a command line is not acted on. `help` is asked for; the others are mistakes. -/
inductive Refusal where
  | help
  | ambiguous (written : Text) (candidates : List Flag)
  | missingValue (flag : Flag)
  | unexpectedValue (flag : Flag) (value : Text)
  | notInteger (flag : Flag) (value : Text)
  | unrecognized (arguments : List Text)
  deriving DecidableEq, Repr

namespace Refusal

def about (flag : Flag) (reason : String) : String :=
  let label := flag.label
  s!"argument {label}: {reason}"

def message : Refusal → String
  | help => ""
  | ambiguous written candidates =>
      let written := String.ofList written
      let candidates := ", ".intercalate (candidates.map Flag.word)
      s!"ambiguous option: {written} could match {candidates}"
  | missingValue flag => about flag "expected one argument"
  | unexpectedValue flag value =>
      about flag ("ignored explicit argument " ++ String.ofList (Text.quoted value))
  | notInteger flag value =>
      about flag ("invalid int value: " ++ String.ofList (Text.quoted value))
  | unrecognized arguments =>
      let arguments := String.ofList (Text.join ' ' arguments)
      s!"unrecognized arguments: {arguments}"

end Refusal

inductive Token where
  | plain (text : Text)
  | separator
  | short (flag : Flag) (attached : Option Text)
  | long (flag : Flag) (attached : Option Text)
  | unknown (text : Text)
  deriving DecidableEq, Repr

/-- One thing that a command line gives. An option whose attached value is two hyphens is given
without a value, it is `bare`. -/
inductive Given where
  | base (dir : Text)
  | switch (flag : Flag)
  | text (flag : Flag) (value : Text)
  | depth (limit : Int)
  | bare (flag : Flag)
  deriving DecidableEq, Repr

namespace Arguments

/-!
Reading a command line. Each argument is taken for an option, a plain argument or the separator `--`,
after which all arguments are plain. Then options take their values, and one plain argument is the
base directory.
-/

variable (known : List Flag)

def separatorText : Text := ['-', '-']

/-- An argument that looks like an option and is none; with a space in it, it is plain after all. -/
def unmatched (written : Text) : Token :=
  if written.contains ' ' then .plain written else .unknown written

/-- An option by its word or by an unambiguous start of it, with a value after an equals sign. -/
def longToken (written : Text) : Except Refusal Token :=
  let (word, attached) :=
    match Text.splitFirst? '=' written with
    | some (word, value) => (word, some value)
    | none => (written, none)
  match Flag.ofWord? known word with
  | some flag => .ok (.long flag attached)
  | none =>
      match Flag.startingWith known word with
      | [] => .ok (unmatched written)
      | [flag] => .ok (.long flag attached)
      | candidates => .error (.ambiguous written candidates)

/-- An option by its letter. What follows the letter is attached to it, without a first equals
sign. -/
def shortToken (letter : Char) (rest : Text) : Token :=
  match Flag.ofLetter? known letter with
  | none => unmatched ('-' :: letter :: rest)
  | some flag =>
      match rest with
      | [] => .short flag none
      | '=' :: value => .short flag (some value)
      | attached => .short flag (some attached)

def token (written : Text) : Except Refusal Token :=
  match written with
  | '-' :: '-' :: _ => longToken known written
  | '-' :: letter :: rest => .ok (shortToken known letter rest)
  | _ => .ok (.plain written)

def tokens : List Text → Except Refusal (List Token)
  | [] => .ok []
  | written :: rest =>
      if written = separatorText then .ok (.separator :: rest.map .plain)
      else do
        let first ← token known written
        return first :: (← tokens rest)

/-- Options that share one argument: some without a value, and the last one with what is attached to
it. -/
structure Cluster where
  switches : List Flag
  last : Flag
  attached : Option Text
  deriving DecidableEq, Repr

/-- Reads what is attached to a letter: its value, or further letters. -/
def cluster (flag : Flag) : Text → Except Refusal Cluster
  | [] => if flag.takesValue then .ok ⟨[], flag, some []⟩ else .error (.unexpectedValue flag [])
  | letter :: rest =>
      if flag.takesValue then .ok ⟨[], flag, some (letter :: rest)⟩
      else
        match Flag.ofLetter? known letter with
        | none => .error (.unexpectedValue flag (letter :: rest))
        | some next =>
            if rest = [] then .ok ⟨[flag], next, none⟩
            else do
              let others ← cluster next rest
              return { others with switches := flag :: others.switches }

def takeSwitch (flag : Flag) : Except Refusal Given :=
  if flag = .help then .error .help else .ok (.switch flag)

/-- Takes an option with its value. Two hyphens are dropped wherever they are a whole value. -/
def takeValue (flag : Flag) (value : Text) : Except Refusal Given :=
  if value = separatorText then .ok (.bare flag)
  else if flag = .maxDepth then
    match Text.integer? value with
    | some limit => .ok (.depth limit)
    | none => .error (.notInteger flag value)
  else .ok (.text flag value)

/-- What a command line holds: what it gives, and the arguments that nothing was made of. -/
structure Content where
  given : List Given
  unused : List Text
  deriving DecidableEq, Repr

/-- What the options of one argument give; `value` is that of the last one, if it takes one. -/
def Cluster.given (cluster : Cluster) (value : Option Text) : Except Refusal (List Given) := do
  let switches ← cluster.switches.mapM takeSwitch
  match value with
  | some value => return switches ++ [← takeValue cluster.last value]
  | none => return switches ++ [← takeSwitch cluster.last]

/-- The options of one argument; none for an argument that is no option. -/
def clusterOf : Token → Except Refusal (Option Cluster)
  | .short flag none => .ok (some ⟨[], flag, none⟩)
  | .short flag (some attached) => return some (← cluster known flag attached)
  | .long flag none => .ok (some ⟨[], flag, none⟩)
  | .long flag (some value) =>
      if flag.takesValue then .ok (some ⟨[], flag, some value⟩)
      else .error (.unexpectedValue flag value)
  | _ => .ok none

namespace Content

def empty : Content := ⟨[], []⟩

def withGiven (given : List Given) (content : Content) : Content :=
  { content with given := given ++ content.given }

def withUnused (argument : Text) (content : Content) : Content :=
  { content with unused := argument :: content.unused }

end Content

/-- What arguments hold. The first plain argument that no option takes is the base directory, while
`awaitsBase` holds; a separator before it or right after it is dropped. -/
def content (awaitsBase : Bool) : List Token → Except Refusal Content
  | [] => .ok .empty
  | .separator :: rest =>
      if awaitsBase then content true rest
      else return (← content false rest).withUnused separatorText
  | .plain text :: rest =>
      if awaitsBase then
        match rest with
        | .separator :: rest => return (← content false rest).withGiven [.base text]
        | rest => return (← content false rest).withGiven [.base text]
      else return (← content false rest).withUnused text
  | .unknown text :: rest => return (← content awaitsBase rest).withUnused text
  | token :: rest => do
      match ← clusterOf known token with
      | none => content awaitsBase rest
      | some cluster =>
          if cluster.last.takesValue && cluster.attached.isNone then
            match rest with
            | .plain value :: rest => do
                let given ← cluster.given (some value)
                return (← content awaitsBase rest).withGiven given
            | _ => .error (.missingValue cluster.last)
          else do
            let given ← cluster.given cluster.attached
            return (← content awaitsBase rest).withGiven given

/-- What a command line holds when these options are known. -/
def read (arguments : List Text) : Except Refusal Content := do
  content known true (← tokens known arguments)

end Arguments

end PathSearch
