import PathSearch.Log
import PathSearch.Toml.Shown

namespace PathSearch

inductive Field where
  | baseDir
  | includeGlobs
  | excludeGlobs
  | extensions
  | maxDepth
  | onlyFiles
  | followLinks
  | failFast
  deriving DecidableEq, Repr

namespace Field

def all : List Field :=
  [baseDir, includeGlobs, excludeGlobs, extensions, maxDepth, onlyFiles, followLinks, failFast]

theorem mem_all (field : Field) : field ∈ all := by
  cases field <;> simp [all]

def name : Field → String
  | baseDir => "base_dir"
  | includeGlobs => "include"
  | excludeGlobs => "exclude"
  | extensions => "extensions"
  | maxDepth => "max_depth"
  | onlyFiles => "only_files"
  | followLinks => "follow_links"
  | failFast => "fail_fast"

/-- The field that a key means; its words may be joined by hyphens or underscores. -/
def ofKey? (key : Text) : Option Field :=
  all.find? fun field => field.name.toList = Text.replace '-' '_' key

end Field

/-- What config files say. A field that is not set is left to the command line and the defaults. -/
structure Settings where
  baseDir : Option Text := none
  includeGlobs : Option (List Text) := none
  excludeGlobs : Option (List Text) := none
  extensions : Option (List Text) := none
  maxDepth : Option Int := none
  onlyFiles : Option Bool := none
  followLinks : Option Bool := none
  failFast : Option Bool := none
  deriving DecidableEq, Repr

def Settings.sets (settings : Settings) : Field → Bool
  | .baseDir => settings.baseDir.isSome
  | .includeGlobs => settings.includeGlobs.isSome
  | .excludeGlobs => settings.excludeGlobs.isSome
  | .extensions => settings.extensions.isSome
  | .maxDepth => settings.maxDepth.isSome
  | .onlyFiles => settings.onlyFiles.isSome
  | .followLinks => settings.followLinks.isSome
  | .failFast => settings.failFast.isSome

/-- A part of a config file that is ignored. -/
inductive SettingsNotice where
  | unrecognized (key : Text)
  | unexpected (key : Text) (value : Toml.Value)
  | invalidFile (file : Text)
  deriving Repr

namespace SettingsNotice

def invalidReason : String := "not a TOML document"

def message : SettingsNotice → String
  | unrecognized key =>
      let key := String.ofList key
      s!"Ignoring unrecognized config key: {key}"
  | unexpected key value =>
      let key := String.ofList key
      let shown := String.ofList value.shown
      s!"Ignoring config key {key}: unexpected value {shown}"
  | invalidFile file =>
      let file := String.ofList file
      s!"Ignoring invalid config file {file}: {invalidReason}"

/-- Only a value that is nested too deeply cannot be shown. -/
def isShowable : SettingsNotice → Bool
  | unexpected _ value => value.nesting ≤ Toml.shownNestingLimit
  | _ => true

def record (notice : SettingsNotice) : LogRecord :=
  { level := .warning, reporter := .config, message := notice.message }

end SettingsNotice

namespace Settings

def text? : Toml.Value → Option Text
  | .text content => some content
  | _ => none

/-- A list of texts, or a single text as the only one of its list. -/
def texts? : Toml.Value → Option (List Text)
  | .text content => some [content]
  | .array items => items.mapM text?
  | _ => none

def integer? : Toml.Value → Option Int
  | .integer value => some value
  | _ => none

def boolean? : Toml.Value → Option Bool
  | .boolean value => some value
  | _ => none

/-- Sets a field, if the value is of its type. -/
def assign? (field : Field) (value : Toml.Value) (settings : Settings) : Option Settings :=
  match field with
  | .baseDir => (text? value).map fun dir => { settings with baseDir := some dir }
  | .includeGlobs => (texts? value).map fun globs => { settings with includeGlobs := some globs }
  | .excludeGlobs => (texts? value).map fun globs => { settings with excludeGlobs := some globs }
  | .extensions => (texts? value).map fun names => { settings with extensions := some names }
  | .maxDepth => (integer? value).map fun limit => { settings with maxDepth := some limit }
  | .onlyFiles => (boolean? value).map fun only => { settings with onlyFiles := some only }
  | .followLinks => (boolean? value).map fun follow => { settings with followLinks := some follow }
  | .failFast => (boolean? value).map fun stop => { settings with failFast := some stop }

/-- The entries of a table with those of its tables in their place. A key that is met again keeps
its place and takes the last value. -/
def flatten (table : Toml.Table) : Toml.Table :=
  table.foldl (fun flat entry =>
    match entry.2 with
    | .table entries => entries.foldl (fun flat inner => flat.set inner.1 inner.2) flat
    | value => flat.set entry.1 value) []

/-- Takes one entry over; one that cannot be is noted instead. -/
def assign (entry : Text × Toml.Value) (settings : Settings) : Settings × List SettingsNotice :=
  match Field.ofKey? entry.1 with
  | none => (settings, [.unrecognized entry.1])
  | some field =>
      match assign? field entry.2 settings with
      | none => (settings, [.unexpected entry.1 entry.2])
      | some assigned => (assigned, [])

def assignAll : Toml.Table → Settings → Settings × List SettingsNotice
  | [], settings => (settings, [])
  | entry :: rest, settings =>
      let (settings, first) := assign entry settings
      let (settings, later) := assignAll rest settings
      (settings, first ++ later)

/-- What a table says, and what of it is ignored. -/
def ofTable (table : Toml.Table) : Settings × List SettingsNotice := assignAll (flatten table) {}

end Settings

end PathSearch
