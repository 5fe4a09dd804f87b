import PathSearch.Command.Options

namespace PathSearch

/-- A command line that can be read: what it gives, in order, and the fields that are marked as given
by it. -/
structure CommandLine where
  given : List Given
  marked : List Field
  deriving DecidableEq, Repr

namespace CommandLine

/-- Reads a command line. The marks come from a second reading that knows the marking options only
and passes over what it does not know. -/
def read (arguments : List Text) : Except Refusal CommandLine := do
  let content ← Arguments.read Flag.all arguments
  if content.unused ≠ [] then throw (.unrecognized content.unused)
  let marks ← Arguments.read Flag.marking arguments
  return ⟨content.given, Field.all.filter (marks.given.filterMap Given.field?).contains⟩

/-- The options, as far as their values are given. -/
def options (line : CommandLine) : Options :=
  line.given.foldl (fun options given => given.applyTo options) {}

/-- The values of an option that can be repeated, in order; none where it is bare. -/
def values (line : CommandLine) (flag : Flag) : List (Option Text) :=
  line.given.filterMap fun
    | .text other value => if other = flag then some (some value) else none
    | .bare other => if other = flag then some none else none
    | _ => none

/-- Whether an option that counts is bare. Of several depth limits the last one counts. -/
def isBare (line : CommandLine) : Flag → Bool
  | .maxDepth =>
      line.given.reverse.find? (fun given => given.field? = some .maxDepth) = some (.bare .maxDepth)
  | flag => (line.values flag).contains none

/-- The fields without a value because their option is bare. -/
def bareFields (line : CommandLine) : List Field :=
  (Flag.all.filter line.isBare).filterMap Flag.field?

/-- Whether a bare option is left when the settings of a config file are taken over. -/
def lacksValue (line : CommandLine) (settings : Settings) : Bool :=
  line.bareFields.any fun field => line.marked.contains field || !settings.sets field

end CommandLine

end PathSearch
