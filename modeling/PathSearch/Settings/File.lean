import PathSearch.Settings.Basic
import PathSearch.Toml.Document
import PathSearch.Tree.Canonical

namespace PathSearch

/-- Why there is no answer to what the config is. -/
inductive SettingsError where
  | unreadable (error : FileError)
  | notText
  | tooManyDigits
  | notTable
  | notSearchable
  | unknownHome (user : Text)
  | linkCircle
  | tooNested
  | embeddedNul
  deriving DecidableEq, Repr

namespace SettingsError

/-- The error for a start directory without a canonical form. -/
def ofCanonical : FileSystem.CanonicalError → SettingsError
  | .embeddedNul => .embeddedNul
  | .linkCircle _ => .linkCircle
  | .nested => .tooNested

def ofCall : CallError → SettingsError
  | .embeddedNul => .embeddedNul
  | .failed error => .unreadable error

end SettingsError

namespace Settings

/-!
Config files. A directory may hold one of three, and the search goes from a directory up to the root.
The last of the three is shared with other tools, and only its section for this one counts.
-/

variable (system : FileSystem)

def sharedFile : Text := "pyproject.toml".toList

def fileNames : List Text :=
  [".globpathfinder.toml".toList, "globpathfinder.toml".toList, sharedFile]

def toolsKey : Text := "tool".toList

def sectionKey : Text := "globpathfinder".toList

/-- The text with a line feed for every line end. -/
def unifyLineEnds : Text → Text
  | [] => []
  | '\r' :: '\n' :: rest => '\n' :: unifyLineEnds rest
  | '\r' :: rest => '\n' :: unifyLineEnds rest
  | character :: rest => character :: unifyLineEnds rest

/-- The table that a file describes, or nothing when its text is no document. -/
def readTable? (file : Path) : Except SettingsError (Option Toml.Table) := do
  let content ← (system.readFile file).mapError .ofCall
  match String.fromUTF8? content with
  | none => throw .notText
  | some content =>
      match Toml.Document.read (unifyLineEnds content.toList) with
      | .ok table => return some table
      | .error .malformed => return none
      | .error .tooManyDigits => throw .tooManyDigits
      | .error .tooNested => throw .tooNested

/-- Whether the section's key is found in a value: as a key, as an item, or inside a text. -/
def mentionsSection : Toml.Value → Except SettingsError Bool
  | .table entries => .ok (entries.any fun entry => entry.1 = sectionKey)
  | .array items => .ok ((items.filterMap text?).contains sectionKey)
  | .text content => .ok (Text.occursIn sectionKey content)
  | _ => .error .notSearchable

/-- Whether a shared file has a section for this tool. One that cannot be read has none. -/
def hasSection (file : Path) : Except SettingsError Bool :=
  match readTable? system file with
  | .error (.unreadable _) => .ok false
  | .error error => .error error
  | .ok none => .ok false
  | .ok (some table) =>
      match table.find? toolsKey with
      | none => .ok false
      | some tools => mentionsSection tools

def isUsable (file : Path) : Except SettingsError Bool := do
  if ← (system.isFile file).mapError .unreadable then
    if file.name = sharedFile then hasSection system file else return true
  else return false

/-- The files that may hold the config for a directory, the one that comes first being preferred. -/
def candidates (directory : Path) : List Path :=
  directory.ancestors.flatMap fun above => fileNames.map fun name => above ++ Path.ofText name

def firstUsable? : List Path → Except SettingsError (Option Path)
  | [] => .ok none
  | file :: rest => do if ← isUsable system file then return some file else firstUsable? rest

/-- The config file for a directory. -/
def find? (start : Path) : Except SettingsError (Option Path) := do
  let directory ← (system.canonical start).mapError .ofCanonical
  firstUsable? system (candidates directory)

/-- The table under a name, empty when there is nothing under it. -/
def subtable (table : Toml.Table) (name : Text) : Except SettingsError Toml.Table :=
  match table.find? name with
  | none => .ok []
  | some (.table entries) => .ok entries
  | some _ => .error .notTable

/-- The path with a leading `~` or `~user` replaced by a home directory. A name with a NUL in it is the name of no
user, and not even asked for. -/
def expandHome (homeOf : Text → Option Path) (path : Path) : Except SettingsError Path :=
  match path.anchor, path.names with
  | .here, ('~' :: user) :: rest =>
      match homeOf user with
      | some home => .ok (home.extend rest)
      | none => .error (if Char.ofNat 0 ∈ user then .embeddedNul else .unknownHome user)
  | _, _ => .ok path

/-- What a table says, if all that is noted of it can be shown. -/
def parse (table : Toml.Table) : Except SettingsError (Settings × List SettingsNotice) :=
  let (settings, notices) := ofTable table
  if notices.all SettingsNotice.isShowable then .ok (settings, notices) else .error .tooNested

/-- What a config file says. Its base directory is taken relative to the directory of the file. -/
def load (homeOf : Text → Option Path) (file : Path) :
    Except SettingsError (Settings × List SettingsNotice) := do
  match ← readTable? system file with
  | none => return ({}, [.invalidFile file.text])
  | some table =>
      let table ←
        if file.name = sharedFile then subtable (← subtable table toolsKey) sectionKey
        else pure table
      let (settings, notices) ← parse table
      match settings.baseDir with
      | none => return (settings, notices)
      | some dir =>
          let dir ← expandHome homeOf (Path.ofText dir)
          return ({ settings with baseDir := some (file.parent ++ dir).text }, notices)

end Settings

end PathSearch
