import PathSearch.Tree.System

namespace PathSearch

/-- How to walk. The depth limit may be any integer; one that is not positive keeps the walk at its
root. -/
structure WalkOptions where
  maxDepth : Option Int := none
  onlyFiles : Bool := true
  followLinks : Bool := true
  deriving DecidableEq, Repr

namespace WalkOptions

def reports (options : WalkOptions) (isRegularFile : Bool) : Bool :=
  isRegularFile || !options.onlyFiles

/-- Whether directories found at a depth are listed in turn. -/
def descendsBelow (options : WalkOptions) (depth : Nat) : Bool :=
  match options.maxDepth with
  | none => true
  | some limit => depth < limit

end WalkOptions

/-- What a walk reports: an entry, or a failure that costs an entry or a subtree. -/
inductive WalkItem where
  | entry (path : Path) (isRegularFile : Bool)
  | failure (path : Path) (error : FileError)
  deriving DecidableEq

/-- A directory that the walk is in. `depth` counts the names between the root and its entries. -/
structure Frame where
  path : Path
  location : Location
  depth : Nat
  listing : FileSystem.Listing
  deriving DecidableEq

/-- A walk that has been opened: the items found and not yet reported, and the directories being
listed, innermost first. Each of them holds an open handle. -/
structure Walk where
  found : List WalkItem
  frames : List Frame
  deriving DecidableEq

namespace Walk

/-- The directories that are open, in the order of opening. -/
def openPaths (walk : Walk) : List Path := (walk.frames.map Frame.path).reverse

/-- Gives up what has not been reported and closes every directory. -/
def close (_ : Walk) : Walk := ⟨[], []⟩

/-- An entry as the items it makes: itself, when entries of its kind are reported. -/
def itemsOf (options : WalkOptions) (path : Path) (isRegularFile : Bool) : List WalkItem :=
  if options.reports isRegularFile then [.entry path isRegularFile] else []

/-- Opens a walk at a root; a root that is a directory is listed unless the depth limit is zero. -/
def start (system : FileSystem) (options : WalkOptions) (root : Path) :
    Except CallError Walk := do
  let (location, node) ← system.status root
  match node with
  | some (.dir _) =>
      let found := itemsOf options root false
      if options.descendsBelow 0 then
        let listing ← FileSystem.about root (system.listAt location)
        return ⟨found, [⟨root, location, 1, listing⟩]⟩
      else return ⟨found, []⟩
  | some (.file _) => return ⟨itemsOf options root true, []⟩
  | _ => return ⟨itemsOf options root false, []⟩

/-- Enters the directory at a location, an entry of the innermost frame: a directory that the walk is
in already would never end, when links are followed. -/
def enter (system : FileSystem) (options : WalkOptions) (inside : List Frame) (path : Path)
    (depth : Nat) (entryText : Text) (location : Location) : List WalkItem × List Frame :=
  match if options.followLinks then system.guard .status location else .ok () with
  | .error cause => ([.failure path ⟨cause, some entryText⟩], inside)
  | .ok () =>
      if options.followLinks && (inside.map Frame.location).contains location then
        ([.failure path ⟨.linkLoop, some path.text⟩], inside)
      else
        match system.listAt location with
        | .error cause =>
            (itemsOf options path false ++ [.failure path ⟨cause, some path.text⟩], inside)
        | .ok listing => (itemsOf options path false, ⟨path, location, depth + 1, listing⟩ :: inside)

/-- One step of a walk whose innermost frame is `frame`: the next name is taken from it, or the frame
is closed. -/
def advance (system : FileSystem) (options : WalkOptions) (frame : Frame) (outer : List Frame) :
    List WalkItem × List Frame :=
  match frame.listing.names with
  | [] =>
      match frame.listing.failure with
      | none => ([], outer)
      | some cause => ([.failure frame.path ⟨cause, some frame.path.text⟩], outer)
  | name :: names =>
      let inside := { frame with listing := ⟨names, frame.listing.failure⟩ } :: outer
      let path := frame.path ++ Path.ofText name
      let entryText := FileSystem.entryText frame.path name
      match system.entryKind options.followLinks frame.path frame.location name with
      | .error cause => ([.failure path ⟨cause, some entryText⟩], inside)
      | .ok .file => (itemsOf options path true, inside)
      | .ok .neither => (itemsOf options path false, inside)
      | .ok (.dir location) =>
          if options.descendsBelow frame.depth then
            enter system options inside path frame.depth entryText location
          else (itemsOf options path false, inside)

end Walk

end PathSearch
