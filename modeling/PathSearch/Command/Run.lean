import PathSearch.Command.Line
import PathSearch.Search
import PathSearch.Settings.File

namespace PathSearch.Command

/-- What a run of the command depends on besides its arguments. The home directory of the empty user
name is that of the user who runs it, and the version is known only of an installed program. -/
structure Environment where
  system : FileSystem
  homeOf : Text → Option Path
  version : Option String

/-- What a run writes and how it ends; `complaint` is what it says last when it fails. -/
structure Outcome where
  status : Nat
  output : Text
  log : List LogRecord
  complaint : Option String
  deriving DecidableEq, Repr

/-- A failure that ends a run without an outcome; `bareOption` is that of an option without its
value, which makes no query. A scan can fail after some of the output has been written. -/
inductive Failure where
  | settings (error : SettingsError)
  | bareOption
  | pattern (error : Glob.Error)
  | scan (error : ScanError) (written : Text)
  deriving DecidableEq

/-- What has been written when the failure comes. -/
def Failure.written : Failure → Text
  | .scan _ written => written
  | _ => []

def programName : String := "globpathfinder"

def logLine (record : LogRecord) : String :=
  s!"{record.level.name} {programName}.{record.reporter.name}: {record.message}"

namespace Outcome

def errorLines (outcome : Outcome) : List String :=
  outcome.log.map logLine ++ outcome.complaint.toList

end Outcome

def usage : String :=
  s!"usage: {programName} [options] [base_dir]\n\noptions: " ++
    ", ".intercalate (Flag.all.map Flag.label) ++ "\n"

def refused : Refusal → Outcome
  | .help => ⟨0, usage.toList, [], none⟩
  | refusal => ⟨2, [], [], some (s!"{programName}: error: " ++ refusal.message)⟩

def versionLine : Option String → String
  | some version => s!"v{version}\n"
  | none => "unknown (package not installed)\n"

def settings (environment : Environment) :
    Except SettingsError (Settings × List SettingsNotice) := do
  match ← Settings.find? environment.system environment.system.current with
  | none => return ({}, [])
  | some file => Settings.load environment.system environment.homeOf file

def written (options : Options) (paths : List Path) : Text :=
  let terminator := if options.nulSeparated then Char.ofNat 0 else '\n'
  let ordered := if options.sorted then Path.sort paths else paths
  ordered.flatMap fun path => path.text ++ [terminator]

/-- Searches as the options say. Sorted paths are written once all are found, others as they are
found. -/
def search (system : FileSystem) (options : Options) (limits : List BaseGroup → Merge.Limits) :
    Except Failure Outcome :=
  match Search.ofQuery system options.query (options.level = .trace) with
  | .error (.malformed pattern reason) =>
      .ok ⟨1, [], [], some ("Error: " ++ (Glob.Error.malformed pattern reason).message)⟩
  | .error error => .error (.pattern error)
  | .ok search =>
      let (paths, failure, log) := search.run (limits search.groups)
      let early := if options.sorted then [] else written options paths
      match failure with
      | none => .ok ⟨0, written options paths, log, none⟩
      | some (.notStarted base cause) =>
          .ok ⟨2, early, log, some ("Error: " ++ (ScanError.notStarted base cause).message)⟩
      | some error => .error (.scan error early)

/-- The scans that run at a time when the number of processors is not known. -/
def defaultLimits (groups : List BaseGroup) : Merge.Limits :=
  ⟨(Merge.defaultWorkers groups.length none).toNat, Merge.queueCapacity⟩

def run (environment : Environment) (arguments : List Text) : Except Failure Outcome :=
  match CommandLine.read arguments with
  | .error refusal => .ok (refused refusal)
  | .ok line =>
      if line.options.showsVersion then .ok ⟨0, (versionLine environment.version).toList, [], none⟩
      else do
        let (settings, notices) ← (settings environment).mapError .settings
        if line.lacksValue settings then throw .bareOption
        let options := line.options.merge settings line.marked
        let outcome ← search environment.system options defaultLimits
        let log := notices.map SettingsNotice.record ++ outcome.log
        return { outcome with log := LogRecord.visibleAt options.level log }

end PathSearch.Command
