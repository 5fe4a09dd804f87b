import PathSearch.Command.Line
import PathSearch.Proofs.Command.Marks

/-! Which command lines have what they give marked, so that no settings replace it. -/

namespace PathSearch

open Arguments

/-- The options agree in a field. -/
def Options.Agree (first second : Options) : Field → Prop
  | .baseDir => first.baseDir = second.baseDir
  | .includeGlobs => first.includeGlobs = second.includeGlobs
  | .excludeGlobs => first.excludeGlobs = second.excludeGlobs
  | .extensions => first.extensions = second.extensions
  | .maxDepth => first.maxDepth = second.maxDepth
  | .onlyFiles => first.onlyFiles = second.onlyFiles
  | .followLinks => first.followLinks = second.followLinks
  | .failFast => first.failFast = second.failFast

namespace CommandLine

/-- The arguments are read for what they give; the fields that are marked are those that are given, and no
settings replace what is given for them. -/
def KeepsWhatIsGiven (arguments : List Text) (given : List Given) : Prop :=
  ∃ line, read arguments = .ok line ∧ line.given = given ∧
    (∀ field, field ∈ line.marked ↔ some field ∈ given.map Given.field?) ∧
      ∀ settings field, some field ∈ given.map Given.field? →
        (line.options.merge settings line.marked).Agree line.options field

/-- No argument of `-0` goes on to a `v`; what an argument led by `-v` gives is given by another argument as
well; and one that leaves something over comes with a base directory. -/
structure IsTransparent (tokens : List Token) (given : List Given) : Prop where
  unbroken : ∀ token ∈ tokens, ¬ Breaks token
  repeated : ∀ token ∈ tokens, LedByVerbose token → ∀ field, Gives token field →
    ∃ other ∈ tokens, ¬ LedByVerbose other ∧ Gives other field
  settled : (∃ token ∈ tokens, Strays token) → ∃ dir, .base dir ∈ given

theorem merge_agree {options : Options} {settings : Settings} {marked : List Field} {field : Field}
    (held : field ∈ marked) : (options.merge settings marked).Agree options field := by
  cases field <;> exact if_pos held

theorem mem_map_field?_baseDir {items : List Given} :
    some .baseDir ∈ items.map Given.field? ↔ ∃ dir, .base dir ∈ items := by
  constructor
  · intro member
    obtain ⟨item, held, same⟩ := List.mem_map.mp member
    cases item with
    | base dir => exact ⟨dir, held⟩
    | depth limit => cases same
    | switch flag => exact absurd same flag.field?_ne_baseDir
    | text flag value => exact absurd same flag.field?_ne_baseDir
    | bare flag => exact absurd same flag.field?_ne_baseDir
  · intro found
    obtain ⟨dir, held⟩ := found
    exact List.mem_map.mpr ⟨_, held, rfl⟩

theorem ne_baseDir_of_gives {token : Token} {field : Field} (gives : Gives token field) :
    field ≠ .baseDir := by
  rintro rfl
  obtain ⟨_, -, member⟩ := gives
  obtain ⟨flag, -, same⟩ := List.mem_map.mp member
  exact flag.field?_ne_baseDir same

section Accepted

variable {arguments : List Text} {given marks : List Given} {tokens others : List Token}
  (accepted : Arguments.read Flag.all arguments = .ok ⟨given, []⟩)
  (again : Arguments.tokens Flag.marking arguments = .ok others)

include accepted again

theorem read_eq :
    read arguments = (givens Flag.marking true others).map fun marks =>
      ⟨given, Field.all.filter (marks.filterMap Given.field?).contains⟩ := by
  have marking : Arguments.read Flag.marking arguments = content Flag.marking true others := by
    rw [Arguments.read, again]
    rfl
  rw [read, accepted, marking, givens]
  cases content Flag.marking true others <;> rfl

theorem keepsWhatIsGiven_of_marks (marked : givens Flag.marking true others = .ok marks) :
    KeepsWhatIsGiven arguments given ↔
      ∀ field, some field ∈ marks.map Given.field? ↔ some field ∈ given.map Given.field? := by
  have line := read_eq accepted again
  rw [marked] at line
  have held : ∀ field, field ∈ Field.all.filter (marks.filterMap Given.field?).contains ↔
      some field ∈ marks.map Given.field? := by
    intro field
    simp [Field.mem_all]
  constructor
  · intro keeps field
    obtain ⟨other, found, -, same, -⟩ := keeps
    obtain rfl := Except.ok.inj (found.symm.trans line)
    rw [← same, held]
  · intro same
    refine ⟨_, line, rfl, fun field => (held field).trans (same field), ?_⟩
    intro settings field member
    exact merge_agree ((held field).mpr ((same field).mpr member))

end Accepted

/-- The marks of an accepted command line are what it gives, and settings leave that alone, exactly if its
tokens are transparent. -/
theorem keepsWhatIsGiven_iff {arguments : List Text} {given : List Given}
    (accepted : Arguments.read Flag.all arguments = .ok ⟨given, []⟩) :
    ∃ tokens, Arguments.tokens Flag.all arguments = .ok tokens ∧
      (KeepsWhatIsGiven arguments given ↔ IsTransparent tokens given) := by
  obtain ⟨tokens, split, whole⟩ := bind_eq_ok.mp accepted
  obtain ⟨others, again, seen⟩ := exists_tokens_seen split
  have accepts := accepts_of_content whole
  refine ⟨tokens, split, ?_⟩
  rcases ends_of_accepts accepts seen true with ⟨⟨token, member, breaks⟩, refusal, refused⟩ |
    ⟨calm, marks, ⟨fields, base⟩, read⟩
  · refine iff_of_false ?_ fun transparent => transparent.unbroken token member breaks
    rintro ⟨line, found, -⟩
    rw [read_eq accepted again, refused] at found
    cases found
  · rw [keepsWhatIsGiven_of_marks accepted again read]
    constructor
    · intro same
      refine ⟨calm, ?_, ?_⟩
      · intro token member _ field gives
        have other := ne_baseDir_of_gives gives
        rw [← fields field other, same, fields_of_accepts accepts other]
        exact ⟨token, member, gives⟩
      · intro strays
        rw [← mem_map_field?_baseDir, ← same, mem_map_field?_baseDir, base]
        exact ⟨rfl, .inr strays⟩
    · intro transparent field
      by_cases other : field = .baseDir
      · rw [other, mem_map_field?_baseDir, mem_map_field?_baseDir, base]
        simp only [true_and, or_iff_left_iff_imp]
        exact transparent.settled
      · rw [fields field other, fields_of_accepts accepts other]
        constructor
        · exact fun ⟨token, member, _, gives⟩ => ⟨token, member, gives⟩
        · intro found
          obtain ⟨token, member, gives⟩ := found
          by_cases led : LedByVerbose token
          · exact transparent.repeated token member led field gives
          · exact ⟨token, member, led, gives⟩

/-- With `-v` in an argument of its own the pattern, whatever it is, stays marked. -/
theorem keepsWhatIsGiven_verbose :
    KeepsWhatIsGiven [['-', 'v'], ['-', 'i'], ['*']] [.switch .verbose, .text .includeGlob ['*']] := by
  have accepted : Arguments.read Flag.all [['-', 'v'], ['-', 'i'], ['*']] =
      .ok ⟨[.switch .verbose, .text .includeGlob ['*']], []⟩ := by decide +kernel
  obtain ⟨tokens, split, iff⟩ := keepsWhatIsGiven_iff accepted
  have same : Arguments.tokens Flag.all [['-', 'v'], ['-', 'i'], ['*']] =
      .ok [.short .verbose none, .short .includeGlob none, .plain ['*']] := by decide +kernel
  obtain rfl := Except.ok.inj (split.symm.trans same)
  refine iff.mpr ⟨?_, ?_, ?_⟩
  · rintro token member ⟨flag, attached, cluster, apart, rfl, found, ends⟩
    obtain ⟨rfl, rfl⟩ : flag = .includeGlob ∧ attached = none := by simpa [apart] using member
    cases found
    exact absurd ends (by decide)
  · rintro token member ⟨attached, rfl⟩ field ⟨cluster, found, gives⟩
    obtain rfl : attached = none := by simpa using member
    cases found
    exact absurd gives (by simp [Cluster.flags, Flag.field?])
  · rintro ⟨token, member, attached, cluster, rfl, found, left⟩
    obtain rfl : attached = none := by simpa using member
    cases found
    exact absurd left (by simp [Flag.takesValue])

/-- A pattern behind `-v` in one argument marks the base directory instead, or nothing at all. A blank in it
makes the argument the base directory, and behind `-0` the `v` has the command line refused. -/
theorem not_keepsWhatIsGiven :
    (Arguments.read Flag.all [['-', 'v', 'i'], ['*']] =
        .ok ⟨[.switch .verbose, .text .includeGlob ['*']], []⟩ ∧
      ¬ KeepsWhatIsGiven [['-', 'v', 'i'], ['*']] [.switch .verbose, .text .includeGlob ['*']]) ∧
    (Arguments.read Flag.all [['-', '0', 'v']] = .ok ⟨[.switch .nul, .switch .verbose], []⟩ ∧
      ¬ KeepsWhatIsGiven [['-', '0', 'v']] [.switch .nul, .switch .verbose]) := by
  refine ⟨⟨by decide +kernel, ?_⟩, by decide +kernel, ?_⟩
  · intro keeps
    obtain ⟨line, found, -, marked, -⟩ := keeps
    have read : read [['-', 'v', 'i'], ['*']] =
        .ok ⟨[.switch .verbose, .text .includeGlob ['*']], [.baseDir]⟩ := by decide +kernel
    obtain rfl := Except.ok.inj (found.symm.trans read)
    have unmarked := (marked .includeGlobs).mpr (by decide)
    exact absurd unmarked (by decide)
  · intro keeps
    obtain ⟨line, found, -⟩ := keeps
    have refused : (read [['-', '0', 'v']]).toOption = none := by decide +kernel
    rw [found] at refused
    cases refused

end CommandLine

end PathSearch
