import PathSearch.Command.Options
import PathSearch.Proofs.Results
import PathSearch.Proofs.Settings.Taken

/-!
What a table changes in the options: a field of which it has a value of the right type, and nothing else. It
is read as long as the values it has to warn of can be shown.
-/

namespace PathSearch

open Toml (Table Value)

namespace Field

/-- The keys of a field: its name with underscores, or with hyphens instead. -/
def IsKey (field : Field) (key : Text) : Prop :=
  key = field.name.toList ∨ key = Text.replace '_' '-' field.name.toList

instance (field : Field) (key : Text) : Decidable (field.IsKey key) := inferInstanceAs (Decidable (_ ∨ _))

theorem eq_of_replace {key text : Text} (free : '_' ∉ text) (same : Text.replace '-' '_' key = text) :
    key = text := by
  have kept : ∀ character ∈ key, (if character = '-' then '_' else character) = character := by
    intro character member
    rw [ite_eq_right_iff]
    rintro rfl
    refine absurd ?_ free
    rw [← same]
    exact List.mem_map.mpr ⟨'-', member, rfl⟩
  rw [← same, Text.replace, List.map_congr_left kept, List.map_id']

theorem eq_or_eq_of_replace {key before after : Text} (front : '_' ∉ before) (back : '_' ∉ after)
    (same : Text.replace '-' '_' key = before ++ '_' :: after) :
    key = before ++ '_' :: after ∨ key = before ++ '-' :: after := by
  obtain ⟨first, rest, rfl, start, ends⟩ := List.map_eq_append_iff.mp same
  obtain ⟨character, last, rfl, single, ends⟩ := List.map_eq_cons_iff.mp ends
  rw [eq_of_replace front start, eq_of_replace back ends]
  by_cases hyphen : character = '-'
  · exact .inr (by rw [hyphen])
  · rw [if_neg hyphen] at single
    exact .inl (by rw [single])

/-- No name has more than two words. -/
theorem name_cases (field : Field) :
    '_' ∉ field.name.toList ∨ ∃ before after, field.name.toList = before ++ '_' :: after ∧
      Text.replace '_' '-' field.name.toList = before ++ '-' :: after ∧ '_' ∉ before ∧ '_' ∉ after := by
  cases field with
  | includeGlobs => exact .inl (by decide)
  | excludeGlobs => exact .inl (by decide)
  | extensions => exact .inl (by decide)
  | baseDir => exact .inr ⟨['b', 'a', 's', 'e'], ['d', 'i', 'r'], by decide⟩
  | maxDepth => exact .inr ⟨['m', 'a', 'x'], ['d', 'e', 'p', 't', 'h'], by decide⟩
  | onlyFiles => exact .inr ⟨['o', 'n', 'l', 'y'], ['f', 'i', 'l', 'e', 's'], by decide⟩
  | followLinks => exact .inr ⟨['f', 'o', 'l', 'l', 'o', 'w'], ['l', 'i', 'n', 'k', 's'], by decide⟩
  | failFast => exact .inr ⟨['f', 'a', 'i', 'l'], ['f', 'a', 's', 't'], by decide⟩

theorem ofKey?_eq_some_iff {key : Text} {field : Field} : ofKey? key = some field ↔ field.IsKey key := by
  constructor
  · intro found
    have same := List.find?_some found
    rw [decide_eq_true_eq] at same
    rcases field.name_cases with single | ⟨before, after, words, hyphened, front, back⟩
    · exact .inl (eq_of_replace single same.symm)
    · rw [IsKey, hyphened, words]
      exact eq_or_eq_of_replace front back (same.symm.trans words)
  · intro key
    rcases key with rfl | rfl
    · cases field <;> rfl
    · cases field <;> rfl

end Field

namespace Settings

section Last

variable {table entries : Table} {field : Field} {entry : Text × Value} {value : Value}

theorem mem_of_mem_set {name : Text} (member : entry ∈ table.set name value) :
    entry ∈ table ∨ entry = (name, value) := by
  induction table with
  | nil => exact .inr (List.mem_singleton.mp member)
  | cons first table ih =>
      obtain ⟨other, old⟩ := first
      by_cases same : other = name
      · rw [Toml.Table.set, if_pos same] at member
        rcases List.mem_cons.mp member with rfl | member
        · exact .inr rfl
        · exact .inl (List.mem_cons_of_mem _ member)
      · rw [Toml.Table.set, if_neg same] at member
        rcases List.mem_cons.mp member with rfl | member
        · exact .inl (List.mem_cons_self ..)
        · exact (ih member).imp_left (List.mem_cons_of_mem _)

theorem mem_of_mem_setAll {flat : Table} (member : entry ∈ setAll flat entries) :
    entry ∈ flat ∨ entry ∈ entries := by
  induction entries generalizing flat with
  | nil => exact .inl member
  | cons first entries ih =>
      rcases ih member with held | held
      · rcases mem_of_mem_set held with old | rfl
        · exact .inl old
        · exact .inr (List.mem_cons_self ..)
      · exact .inr (List.mem_cons_of_mem _ held)

/-- Nothing is in a table but what is in the table or in one of its tables. -/
theorem mem_unfolded_of_mem_flatten (member : entry ∈ flatten table) : entry ∈ unfolded table := by
  rw [flatten_eq] at member
  exact (mem_of_mem_setAll member).resolve_left List.not_mem_nil

theorem entryValue?_eq_some_iff :
    entryValue? field entry = some value ↔ field.IsKey entry.1 ∧ entry.2.as? field.kind = some value := by
  rw [entryValue?, ← Field.ofKey?_eq_some_iff]
  by_cases meant : Field.ofKey? entry.1 = some field
  · simp [meant]
  · simp [meant]

theorem exists_of_lastValue? (found : lastValue? entries field = some value) :
    ∃ entry ∈ entries, field.IsKey entry.1 ∧ entry.2.as? field.kind = some value := by
  obtain ⟨before, entry, after, shape, taken, -⟩ := List.findSome?_eq_some_iff.mp found
  refine ⟨entry, List.mem_reverse.mp ?_, entryValue?_eq_some_iff.mp taken⟩
  rw [shape]
  simp

theorem exists_lastValue? (member : entry ∈ entries) (key : field.IsKey entry.1)
    (typed : entry.2.as? field.kind = some value) : ∃ other, lastValue? entries field = some other := by
  apply Option.isSome_iff_exists.mp
  rw [lastValue?, List.findSome?_isSome_iff]
  exact ⟨entry, List.mem_reverse.mpr member, by rw [entryValue?_eq_some_iff.mpr ⟨key, typed⟩]; rfl⟩

theorem mem_of_find? {name : Text} (found : table.find? name = some value) : (name, value) ∈ table := by
  obtain ⟨before, after, rfl, -⟩ := List.lookup_eq_some_iff.mp found
  exact List.mem_append_right _ (List.mem_cons_self ..)

/-- The only entry for a field is not replaced by another one. -/
theorem mem_flatten_of_only (member : entry ∈ unfolded table) (key : field.IsKey entry.1)
    (only : ∀ other ∈ unfolded table, field.IsKey other.1 → other = entry) : entry ∈ flatten table := by
  have latest := (unfolds_flatten table).latest entry.1
  cases found : Toml.Table.find? (unfolded table).reverse entry.1 with
  | none =>
      have missing := List.lookup_eq_none_iff.mp found entry (List.mem_reverse.mpr member)
      simp at missing
  | some value =>
      have same : (entry.1, value) = entry := only _ (List.mem_reverse.mp (mem_of_find? found)) key
      exact same ▸ mem_of_find? (latest.trans found)

theorem lastValue?_of_only (member : entry ∈ unfolded table) (key : field.IsKey entry.1)
    (only : ∀ other ∈ unfolded table, field.IsKey other.1 → other = entry)
    (typed : entry.2.as? field.kind = some value) : lastValue? (flatten table) field = some value := by
  obtain ⟨taken, found⟩ := exists_lastValue? (mem_flatten_of_only member key only) key typed
  obtain ⟨other, held, named, same⟩ := exists_of_lastValue? found
  obtain rfl := only other (mem_unfolded_of_mem_flatten held) named
  rw [found, ← same, typed]

end Last

section Parse

variable {table : Table}

theorem showable_iff {entry : Text × Value} :
    (∀ notice, refusal? entry = some notice → notice.isShowable = true) ↔
      ∀ field : Field, field.IsKey entry.1 → entry.2.as? field.kind = none →
        entry.2.nesting ≤ Toml.shownNestingLimit := by
  simp only [← Field.ofKey?_eq_some_iff]
  unfold refusal?
  cases meant : Field.ofKey? entry.1 with
  | none => simp [SettingsNotice.isShowable]
  | some field =>
      cases typed : entry.2.as? field.kind with
      | some value => simp [typed]
      | none => simp [typed, SettingsNotice.isShowable]

/-- A table is read unless a value of the wrong type lies too deep to be shown. -/
theorem exists_parse_iff :
    (∃ made, parse table = .ok made) ↔
      ∀ entry ∈ flatten table, ∀ field : Field, field.IsKey entry.1 → entry.2.as? field.kind = none →
        entry.2.nesting ≤ Toml.shownNestingLimit := by
  simp only [parse_eq_ok, exists_eq_left', List.mem_filterMap, forall_exists_index, and_imp,
    ← showable_iff]
  exact ⟨fun all entry member notice noted => all notice entry member noted,
    fun all notice entry member noted => all entry member notice noted⟩

end Parse

end Settings

namespace Options

/-- What a field holds. -/
def value (options : Options) : Field → Value
  | .baseDir => .text options.baseDir
  | .includeGlobs => .array (options.includeGlobs.map .text)
  | .excludeGlobs => .array (options.excludeGlobs.map .text)
  | .extensions => .array (options.extensions.map .text)
  | .maxDepth => (options.maxDepth.map .integer).getD .nothing
  | .onlyFiles => .boolean options.onlyFiles
  | .followLinks => .boolean options.followLinks
  | .failFast => .boolean options.failFast

variable {marked : List Field}

theorem apply_chosen {content : Type} {field : Field} {setting : Option content} {own : content}
    (read : content → Value) :
    read (chosen marked field setting own) =
      if field ∈ marked then read own else (setting.map read).getD (read own) := by
  unfold chosen
  split
  · rfl
  · cases setting <;> rfl

theorem value_merge (options : Options) (settings : Settings) (field : Field) :
    (options.merge settings marked).value field =
      if field ∈ marked then options.value field else (settings.value? field).getD (options.value field) := by
  cases field with
  | baseDir => exact apply_chosen Value.text
  | includeGlobs => exact apply_chosen fun (globs : List Text) => .array (globs.map .text)
  | excludeGlobs => exact apply_chosen fun (globs : List Text) => .array (globs.map .text)
  | extensions => exact apply_chosen fun (names : List Text) => .array (names.map .text)
  | onlyFiles => exact apply_chosen Value.boolean
  | followLinks => exact apply_chosen Value.boolean
  | failFast => exact apply_chosen Value.boolean
  | maxDepth =>
      refine (apply_chosen fun (limit : Option Int) => (limit.map Value.integer).getD .nothing).trans ?_
      rw [Option.map_map]
      rfl

end Options

namespace Query

/-- The query is for what the options say, with each text of a collection once. -/
structure Asks (query : Query) (options : Options) : Prop where
  base : query.baseDir = Path.ofText options.baseDir
  includes : query.includeGlobs.Nodup ∧ ∀ glob, glob ∈ query.includeGlobs ↔ glob ∈ options.includeGlobs
  excludes : query.excludeGlobs.Nodup ∧ ∀ glob, glob ∈ query.excludeGlobs ↔ glob ∈ options.excludeGlobs
  extensions : query.allowedExtensions.Nodup ∧
    ∀ name, name ∈ query.allowedExtensions ↔ name ∈ options.extensions
  depth : ∀ limit : Nat, query.maxDepth = some limit ↔ options.maxDepth = some (limit : Int)
  flags : query.onlyFiles = options.onlyFiles ∧ query.followLinks = options.followLinks ∧
    query.failFast = options.failFast

theorem mem_collection (texts : List Text) :
    (collection texts).Nodup ∧ ∀ text, text ∈ collection texts ↔ text ∈ texts := by
  refine ⟨nodup_eraseDups _, fun text => ?_⟩
  rw [collection, List.mem_eraseDups, Text.sort, List.mem_mergeSort]

theorem asks_query (options : Options) : options.query.Asks options where
  base := rfl
  includes := mem_collection _
  excludes := mem_collection _
  extensions := mem_collection _
  depth := by
    intro limit
    simp only [Options.query, Option.bind_eq_some_iff, depthLimit, Option.ite_none_left_eq_some,
      Option.some.injEq]
    constructor
    · intro found
      obtain ⟨number, same, positive, rfl⟩ := found
      rw [same, Int.toNat_of_nonneg (Int.not_lt.mp positive)]
    · intro same
      exact ⟨limit, same, by omega, Int.toNat_natCast limit⟩
  flags := ⟨rfl, rfl, rfl⟩

end Query

namespace Settings

/-- What the table makes of the options: another value only for a field that is not marked and of which the
table has one of the right type, the only one under a key of the field in any case, and a query for it all. -/
structure Merged (table : Table) (marked : List Field) (options result : Options) : Prop where
  changed : ∀ field, result.value field ≠ options.value field →
    field ∉ marked ∧ ∃ entry ∈ unfolded table, field.IsKey entry.1 ∧ (entry.2.as? field.kind).isSome = true
  taken : ∀ field entry value, field ∉ marked → entry ∈ unfolded table → field.IsKey entry.1 →
    (∀ other ∈ unfolded table, field.IsKey other.1 → other = entry) →
      entry.2.as? field.kind = some value → result.value field = value
  others : result.sorted = options.sorted ∧ result.nulSeparated = options.nulSeparated ∧
    result.verbosity = options.verbosity ∧ result.showsVersion = options.showsVersion
  asked : result.query.Asks result

/-- The table is read, and the options take over what it has for their fields. -/
def Merges (table : Table) (marked : List Field) (options : Options) : Prop :=
  ∃ settings notices, parse table = .ok (settings, notices) ∧
    Merged table marked options (options.merge settings marked)

variable {table : Table} {marked : List Field} {options : Options}

theorem merged_of_parse {settings : Settings} {notices : List SettingsNotice}
    (parsed : parse table = .ok (settings, notices)) :
    Merged table marked options (options.merge settings marked) := by
  have last : ∀ field, settings.value? field = lastValue? (flatten table) field := by
    have spec := (ofTable_spec table).2
    rw [(parse_eq_ok.mp parsed).1] at spec
    exact spec
  refine ⟨fun field other => ?_, fun field entry value unmarked member key only typed => ?_,
    ⟨rfl, rfl, rfl, rfl⟩, Query.asks_query _⟩
  · rw [Options.value_merge, last] at other
    by_cases held : field ∈ marked
    · rw [if_pos held] at other
      exact absurd rfl other
    · rw [if_neg held] at other
      cases found : lastValue? (flatten table) field with
      | none =>
          rw [found] at other
          exact absurd rfl other
      | some value =>
          obtain ⟨entry, member, key, typed⟩ := exists_of_lastValue? found
          exact ⟨held, entry, mem_unfolded_of_mem_flatten member, key, by rw [typed]; rfl⟩
  · rw [Options.value_merge, if_neg unmarked, last, lastValue?_of_only member key only typed]
    rfl

/-- Nothing is in the way of a table but a value of the wrong type that is nested too deeply. -/
theorem merges_iff :
    Merges table marked options ↔
      ∀ entry ∈ flatten table, ∀ field : Field, field.IsKey entry.1 → entry.2.as? field.kind = none →
        entry.2.nesting ≤ Toml.shownNestingLimit := by
  rw [← exists_parse_iff]
  constructor
  · intro merges
    obtain ⟨settings, notices, parsed, -⟩ := merges
    exact ⟨_, parsed⟩
  · intro found
    obtain ⟨⟨settings, notices⟩, parsed⟩ := found
    exact ⟨settings, notices, parsed, merged_of_parse parsed⟩

/-- One key in a table, one that is met twice, one with a value of the wrong type and one for a marked field. -/
theorem merges_section :
    let table : Table :=
      [("query".toList, .table [("max-depth".toList, .integer 3), ("include".toList, .text ['*'])]),
        ("max_depth".toList, .boolean true), ("fail-fast".toList, .boolean false),
        ("only-files".toList, .integer 0)]
    ∃ settings notices, parse table = .ok (settings, notices) ∧
      (({} : Options).merge settings [.failFast]).value .includeGlobs = .array [.text ['*']] ∧
        (({} : Options).merge settings [.failFast]).value .failFast = .boolean true := by
  intro table
  have shallow : ∀ entry ∈ flatten table, entry.2.nesting ≤ Toml.shownNestingLimit := by decide +kernel
  obtain ⟨settings, notices, parsed, merged⟩ := (@merges_iff table [.failFast] {}).mpr
    fun entry member _ _ _ => shallow entry member
  refine ⟨settings, notices, parsed, ?_, ?_⟩
  · refine merged.taken .includeGlobs ("include".toList, .text ['*']) _ (by decide) ?_ (by decide) ?_ rfl
    · exact List.mem_cons_of_mem _ (List.mem_cons_self ..)
    · intro other member key
      change other ∈ [_, _, _, _, _] at member
      simp only [List.mem_cons, List.not_mem_nil, or_false] at member
      rcases member with rfl | rfl | rfl | rfl | rfl
      · exact absurd key (by decide)
      · rfl
      · exact absurd key (by decide)
      · exact absurd key (by decide)
      · exact absurd key (by decide)
  · exact Classical.byContradiction fun other =>
      (merged.changed .failFast other).1 (List.mem_singleton.mpr rfl)

/-- A value in so many tables. -/
def buried : Nat → Value
  | 0 => .integer 1
  | depth + 1 => .table [(['a'], buried depth)]

theorem nesting_buried (depth : Nat) : (buried depth).nesting = depth + 1 := by
  induction depth with
  | zero => rfl
  | succ depth ih => simp [buried, Value.nesting, Toml.nestingOfEntries, ih]

/-- A depth limit that is a table in many tables ends the run, where a boolean is only warned of. -/
theorem not_merges :
    Merges [(['q'], .table [("max-depth".toList, .boolean true)])] [] {} ∧
      ¬ Merges [(['q'], .table [("max-depth".toList, buried 2000)])] [] {} := by
  have flat : ∀ value, flatten [(['q'], .table [("max-depth".toList, value)])] = [("max-depth".toList, value)] :=
    fun value => rfl
  constructor
  · refine ⟨_, _, rfl, merged_of_parse rfl⟩
  · intro merges
    obtain ⟨settings, notices, parsed, -⟩ := merges
    have shallow := exists_parse_iff.mp ⟨_, parsed⟩ ("max-depth".toList, buried 2000)
      (by rw [flat]; exact List.mem_singleton.mpr rfl) .maxDepth (by decide) rfl
    rw [nesting_buried] at shallow
    exact absurd shallow (by decide)

end Settings

end PathSearch
