import PathSearch.Tree.Basic

namespace PathSearch

/-- Operations that can be made to fail at a location. `status` is asking what a path leads to,
`list` is starting to list a directory, `iterate` ends a listing after so many names, `entryKind` is
asking a listed entry for its kind, and `read` is reading a file. -/
inductive FaultKind where
  | status
  | list
  | iterate (after : Nat)
  | entryKind
  | read
  deriving DecidableEq, Repr

structure Fault where
  kind : FaultKind
  location : Location
  cause : FileCause
  deriving DecidableEq, Repr

/-- A file tree that does not change, the failures that its operations report, and the directory
that relative paths start from. -/
structure FileSystem where
  tree : Tree
  faults : List Fault
  current : Path

namespace FileSystem

variable (system : FileSystem)

/-- The failure of an operation at a location; of several the last one stated holds. -/
def fault? (kind : FaultKind) (location : Location) : Option FileCause :=
  (system.faults.reverse.find? fun fault => fault.kind = kind ∧ fault.location = location).map
    Fault.cause

/-- The number of names after which listing a directory fails, and the failure. -/
def iterationFault? (location : Location) : Option (Nat × FileCause) :=
  system.faults.reverse.findSome? fun fault =>
    match fault.kind with
    | .iterate after => if fault.location = location then some (after, fault.cause) else none
    | _ => none

/-- Succeeds unless the operation fails at the location. -/
def guard (kind : FaultKind) (location : Location) : Except FileCause Unit :=
  match system.fault? kind location with
  | some cause => .error cause
  | none => .ok ()

/-- More links than this in resolving one path are too many. -/
def linkLimit : Nat := 40

/-- Follows names from a location; `follow` goes on from a link, given the location it lies in, its
target, and the names after it. -/
def followNames (follow : Location → Text → List Text → Except FileCause Location) :
    Location → List Text → Except FileCause Location
  | location, [] => .ok location
  | location, name :: rest =>
      if system.tree.isDir location then
        if name = Path.up then followNames follow location.dropLast rest
        else
          match system.tree.node? (location ++ [name]) with
          | none => .error .missing
          | some (.link target) => follow location target rest
          | some _ => followNames follow (location ++ [name]) rest
      else .error .notDirectory

/-- Where reading a link's target starts: at the root, or in the directory of the link. -/
def targetStart (location : Location) (target : Text) : Location :=
  if Anchor.ofText target = .here then location else []

/-- Whether a link's target asks for a directory, which it does when it ends in a slash or in a single dot. -/
def asksForDir (target : Text) : Bool := (target.split '/').getLast?.any fun piece => ¬ IsName piece

/-- Follows names from a location through at most so many links. A target that asks for a directory has to lead
to one, also when no name comes after the link. -/
def followWithin : Nat → Location → List Text → Except FileCause Location
  | 0 => system.followNames fun _ _ _ => .error .tooManyLinks
  | links + 1 => system.followNames fun location target rest => do
      let reached ← followWithin links (targetStart location target) (Path.namesOf target ++ rest)
      if rest = [] ∧ asksForDir target ∧ ¬ system.tree.isDir reached then .error .notDirectory
      else .ok reached

/-- The location that a path leads to, all links followed. -/
def resolve (path : Path) : Except FileCause Location :=
  system.followWithin linkLimit [] (system.current ++ path).names

/-- The answer to a call with a path, which its failure names. -/
def about {value : Type} (path : Path) (answer : Except FileCause value) : Except CallError value :=
  answer.mapError fun cause => .failed ⟨cause, some path.text⟩

/-- What comes of a call with any path. -/
def call {value : Type} (path : Path) (answer : Except FileCause value) : Except CallError value :=
  if Char.ofNat 0 ∈ path.text then .error .embeddedNul else about path answer

def status (path : Path) : Except CallError (Location × Option Node) :=
  call path do
    let location ← system.resolve path
    system.guard .status location
    return (location, system.tree.node? location)

/-- Whether a path leads to a regular file. One that leads nowhere does not; other failures to find
out are reported. -/
def isFile (path : Path) : Except FileError Bool :=
  match system.status path with
  | .ok (_, some (.file _)) => .ok true
  | .ok _ => .ok false
  | .error .embeddedNul => .ok false
  | .error (.failed error) =>
      if error.cause ∈ [FileCause.missing, .notDirectory, .tooManyLinks, .linkLoop] then .ok false
      else .error error

/-- A directory that is being listed: the names to come, and how the listing ends. -/
structure Listing where
  names : List Text
  failure : Option FileCause
  deriving DecidableEq, Repr

def listAt (location : Location) : Except FileCause Listing := do
  if !system.tree.isDir location then throw .notDirectory
  system.guard .list location
  let names := system.tree.children location
  return match system.iterationFault? location with
    | some (after, cause) =>
        if after ≤ names.length then ⟨names.take after, some cause⟩ else ⟨names, none⟩
    | none => ⟨names, none⟩

/-- What a listed entry is. Whatever is neither a directory nor a regular file is `neither`, as is a
link that leads nowhere and one that is not followed. -/
inductive EntryKind where
  | dir (location : Location)
  | file
  | neither
  deriving DecidableEq, Repr

def kindAt (location : Location) : EntryKind :=
  match system.tree.node? location with
  | some (.dir _) => .dir location
  | some (.file _) => .file
  | _ => .neither

/-- The kind of the entry `name` in the directory at a location that was listed under `path`. -/
def entryKind (follow : Bool) (path : Path) (location : Location) (name : Text) :
    Except FileCause EntryKind := do
  let entry := location ++ [name]
  system.guard .entryKind entry
  match system.tree.node? entry with
  | some (.link _) =>
      if follow then
        let reached := do
          let target ← system.resolve (path ++ Path.ofText name)
          system.guard .status target
          return target
        match reached with
        | .ok target => return system.kindAt target
        | .error .missing => return .neither
        | .error cause => throw cause
      else return .neither
  | _ => return system.kindAt entry

/-- The path of an entry of a directory that was listed under `path`, as failures name it. -/
def entryText (path : Path) (name : Text) : Text :=
  let directory := path.text
  if directory.getLast? = some '/' then directory ++ name else directory ++ '/' :: name

def readFile (path : Path) : Except CallError ByteArray :=
  call path do
    let location ← system.resolve path
    system.guard .read location
    match system.tree.node? location with
    | some (.file content) => return content
    | some (.dir _) => throw .isDirectory
    | _ => return .empty

end FileSystem

end PathSearch
