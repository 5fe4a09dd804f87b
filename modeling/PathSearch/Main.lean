import PathSearch.Command.Run

namespace PathSearch.Snapshot

/-!
The command on a real file system. What a search can meet is taken over into a file tree first, and
the search runs on that.
-/

def text (location : Location) : String := String.ofList ('/' :: Text.join '/' location)

def causeOf : IO.Error → FileCause
  | .noFileOrDirectory .. => .missing
  | .permissionDenied .. => .denied
  | .inappropriateType .. => .notDirectory
  | _ => .inputOutput

/-- The target of a link, as far as it matters: where it leads, itself if it leads in a circle, and
a name that nothing has if it leads nowhere. -/
def target (location : Location) : IO Text := do
  let place := (← IO.currentDir) / text location
  match ← place.metadata.toBaseIO with
  | .ok _ => return (← IO.FS.realPath place).toString.toList
  | .error (.noFileOrDirectory ..) => return [Char.ofNat 0]
  | .error _ => return (text location).toList

/-- What has been taken over so far, and the directories that were listed, each with the number of
levels to which that was done. -/
structure Taken where
  system : FileSystem
  listed : List (Location × Option Nat)

namespace Taken

def add (taken : Taken) (location : Location) (node : Node) : Taken :=
  { taken with system := { taken.system with tree := taken.system.tree.add location node } }

def addFault (taken : Taken) (location : Location) (cause : FileCause) : Taken :=
  { taken with system :=
      { taken.system with faults := ⟨.list, location, cause⟩ :: taken.system.faults } }

/-- Whether a directory was listed down to so many levels. -/
def covers (taken : Taken) (location : Location) (levels : Option Nat) : Bool :=
  taken.listed.any fun (listed, reached) => listed = location &&
    match reached, levels with
    | none, _ => true
    | some reached, some levels => levels ≤ reached
    | some _, none => false

end Taken

/-- Takes over what lies at a location, and for a directory what lies below it down to so many
levels. A link brings along what it leads to. -/
partial def capture (levels : Option Nat) (withContent : Bool) (taken : Taken)
    (location : Location) : IO Taken := do
  let here ← IO.currentDir
  let place := here / text location
  match ← place.symlinkMetadata.toBaseIO with
  | .error _ => return taken
  | .ok found =>
      match found.type with
      | .file =>
          let content ← if withContent then IO.FS.readBinFile place else pure .empty
          return taken.add location (.file content)
      | .symlink =>
          let target ← target location
          let taken := taken.add location (.link target)
          if target = (text location).toList then return taken
          else capture levels withContent taken (Path.namesOf target)
      | .other => return taken.add location .other
      | .dir =>
          let taken := taken.add location (.dir [])
          if levels = some 0 ∨ taken.covers location levels then return taken
          let taken := { taken with listed := (location, levels) :: taken.listed }
          match ← place.readDir.toBaseIO with
          | .error reason => return taken.addFault location (causeOf reason)
          | .ok entries =>
              entries.foldlM (fun taken entry =>
                capture (levels.map (· - 1)) withContent taken
                  (location ++ [entry.fileName.toList])) taken

/-- The current directory and nothing else. -/
def start : IO FileSystem := do
  let here := Path.ofString (← IO.currentDir).toString
  return ⟨Tree.empty.add here.names (.dir []), [], here⟩

def captureAll (levels : Option Nat) (withContent : Bool) (paths : List Path)
    (system : FileSystem) : IO FileSystem := do
  let taken ← paths.foldlM (fun taken path => capture levels withContent taken path.names)
    (⟨system, []⟩ : Taken)
  return taken.system

/-- Takes over the files that may hold the config. -/
def captureConfig (system : FileSystem) : IO FileSystem :=
  captureAll (some 0) true (Settings.candidates system.current) system

/-- Takes over what lies below the bases of a search. -/
def captureBases (options : Options) (system : FileSystem) : IO FileSystem :=
  match Search.ofQuery system options.query false with
  | .error _ => return system
  | .ok search =>
      captureAll options.query.maxDepth false (search.groups.map BaseGroup.base) system

end PathSearch.Snapshot

open PathSearch in
def main (arguments : List String) : IO UInt32 := do
  let home := (← IO.getEnv "HOME").map Path.ofString
  let homeOf := fun (user : Text) => if user = [] then home else none
  let arguments := arguments.map String.toList
  let system ← Snapshot.captureConfig (← Snapshot.start)
  let environment : Command.Environment := ⟨system, homeOf, some "0.1.0"⟩
  let system ←
    match CommandLine.read arguments, Command.settings environment with
    | .ok line, .ok (settings, _) =>
        Snapshot.captureBases (line.options.merge settings line.marked) system
    | _, _ => pure system
  match Command.run { environment with system } arguments with
  | .error _ =>
      IO.eprintln s!"{Command.programName}: the search cannot be run"
      return 1
  | .ok outcome =>
      outcome.errorLines.forM fun line => IO.eprintln line
      IO.print (String.ofList outcome.output)
      return outcome.status.toUInt32
