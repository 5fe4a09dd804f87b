import PathSearch.Command.Arguments
import PathSearch.Query

namespace PathSearch

/-- What a run of the command is to do. -/
structure Options where
  baseDir : Text := ['.']
  includeGlobs : List Text := []
  excludeGlobs : List Text := []
  extensions : List Text := []
  maxDepth : Option Int := none
  onlyFiles : Bool := true
  followLinks : Bool := true
  failFast : Bool := true
  sorted : Bool := false
  nulSeparated : Bool := false
  verbosity : Nat := 0
  showsVersion : Bool := false
  deriving DecidableEq, Repr

namespace Given

def field? : Given → Option Field
  | base _ => some .baseDir
  | switch flag => flag.field?
  | text flag _ => flag.field?
  | depth _ => some .maxDepth
  | bare flag => flag.field?

/-- The options with what is given. A depth limit without a value takes away an earlier one. -/
def applyTo (given : Given) (options : Options) : Options :=
  match given with
  | base dir => { options with baseDir := dir }
  | depth limit => { options with maxDepth := some limit }
  | text .includeGlob glob => { options with includeGlobs := options.includeGlobs ++ [glob] }
  | text .excludeGlob glob => { options with excludeGlobs := options.excludeGlobs ++ [glob] }
  | text .extension name => { options with extensions := options.extensions ++ [name] }
  | text _ _ => options
  | switch .includeDirs => { options with onlyFiles := false }
  | switch .noFollowLinks => { options with followLinks := false }
  | switch .bestEffort => { options with failFast := false }
  | switch .sort => { options with sorted := true }
  | switch .nul => { options with nulSeparated := true }
  | switch .verbose => { options with verbosity := options.verbosity + 1 }
  | switch .version => { options with showsVersion := true }
  | switch _ => options
  | bare .maxDepth => { options with maxDepth := none }
  | bare _ => options

end Given

namespace Options

/-- A setting, unless the field is marked or has none. -/
def chosen {value : Type} (marked : List Field) (field : Field) (setting : Option value)
    (own : value) : value :=
  if field ∈ marked then own else setting.getD own

/-- The options with the settings of a config file for all fields that are not marked. -/
def merge (options : Options) (settings : Settings) (marked : List Field) : Options :=
  { options with
    baseDir := chosen marked .baseDir settings.baseDir options.baseDir
    includeGlobs := chosen marked .includeGlobs settings.includeGlobs options.includeGlobs
    excludeGlobs := chosen marked .excludeGlobs settings.excludeGlobs options.excludeGlobs
    extensions := chosen marked .extensions settings.extensions options.extensions
    maxDepth := chosen marked .maxDepth (settings.maxDepth.map some) options.maxDepth
    onlyFiles := chosen marked .onlyFiles settings.onlyFiles options.onlyFiles
    followLinks := chosen marked .followLinks settings.followLinks options.followLinks
    failFast := chosen marked .failFast settings.failFast options.failFast }

def query (options : Options) : Query where
  baseDir := Path.ofText options.baseDir
  includeGlobs := Query.collection options.includeGlobs
  excludeGlobs := Query.collection options.excludeGlobs
  allowedExtensions := Query.collection options.extensions
  maxDepth := options.maxDepth.bind Query.depthLimit
  onlyFiles := options.onlyFiles
  followLinks := options.followLinks
  failFast := options.failFast

/-- The least level of the log records that are shown. -/
def level (options : Options) : Level :=
  match options.verbosity with
  | 0 => .warning
  | 1 => .info
  | 2 => .debug
  | _ => .trace

end Options

end PathSearch
