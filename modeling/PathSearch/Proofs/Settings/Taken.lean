import PathSearch.Settings.File

/-!
What is taken from a table: for every field the last value of its type that stands under one of its keys.
Every other entry is noted and has no effect.
-/

namespace PathSearch

/-- What a field holds. -/
inductive Field.Kind where
  | text
  | texts
  | whole
  | truth
  deriving DecidableEq

def Field.kind : Field → Field.Kind
  | baseDir => .text
  | includeGlobs | excludeGlobs | extensions => .texts
  | maxDepth => .whole
  | onlyFiles | followLinks | failFast => .truth

namespace Toml.Value

def isText : Toml.Value → Bool
  | .text _ => true
  | _ => false

/-- The value as a field of the kind holds it, where a text stands for a list of one. -/
def as? : Field.Kind → Toml.Value → Option Toml.Value
  | .text, .text content => some (.text content)
  | .texts, .text content => some (.array [.text content])
  | .texts, .array items => if items.all isText then some (.array items) else none
  | .whole, .integer value => some (.integer value)
  | .truth, .boolean value => some (.boolean value)
  | _, _ => none

end Toml.Value

namespace Settings

open Toml (Table Value)

/-- What a field is set to. -/
def value? (settings : Settings) : Field → Option Value
  | .baseDir => settings.baseDir.map .text
  | .includeGlobs => settings.includeGlobs.map fun globs => .array (globs.map .text)
  | .excludeGlobs => settings.excludeGlobs.map fun globs => .array (globs.map .text)
  | .extensions => settings.extensions.map fun names => .array (names.map .text)
  | .maxDepth => settings.maxDepth.map .integer
  | .onlyFiles => settings.onlyFiles.map .boolean
  | .followLinks => settings.followLinks.map .boolean
  | .failFast => settings.failFast.map .boolean

/-- What an entry sets a field to, if its key means the field and its value is of the field's type. -/
def entryValue? (field : Field) (entry : Text × Value) : Option Value :=
  if Field.ofKey? entry.1 = some field then entry.2.as? field.kind else none

/-- The last value for a field. -/
def lastValue? (entries : Table) (field : Field) : Option Value :=
  entries.reverse.findSome? (entryValue? field)

/-- What is noted of an entry that is not taken. -/
def refusal? (entry : Text × Value) : Option SettingsNotice :=
  match Field.ofKey? entry.1 with
  | none => some (.unrecognized entry.1)
  | some field => if (entry.2.as? field.kind).isSome then none else some (.unexpected entry.1 entry.2)

section Reading

variable {value : Value}

theorem map_text? : (text? value).map Value.text = value.as? .text := by
  cases value <;> rfl

theorem map_integer? : (integer? value).map Value.integer = value.as? .whole := by
  cases value <;> rfl

theorem map_boolean? : (boolean? value).map Value.boolean = value.as? .truth := by
  cases value <;> rfl

theorem map_mapM_text? {items : List Value} :
    (items.mapM text?).map (fun contents => contents.map Value.text) =
      if items.all Value.isText then some items else none := by
  induction items with
  | nil => rfl
  | cons item items ih =>
      rw [List.mapM_cons]
      cases item with
      | text content =>
          cases read : items.mapM text? with
          | none =>
              rw [read] at ih
              simpa [text?, Value.isText] using ih
          | some contents =>
              rw [read] at ih
              by_cases all : items.all Value.isText = true
              · simp_all [text?, Value.isText]
              · simp [all] at ih
      | _ => simp [text?, Value.isText]

theorem map_texts? :
    (texts? value).map (fun contents => Value.array (contents.map .text)) = value.as? .texts := by
  cases value with
  | array items =>
      have read := congrArg (Option.map Value.array) (@map_mapM_text? items)
      rw [Option.map_map, apply_ite (Option.map Value.array)] at read
      exact read
  | _ => rfl

end Reading

section Assign

variable {field : Field} {value : Value} {settings assigned : Settings}

theorem assign?_eq_none_iff : assign? field value settings = none ↔ value.as? field.kind = none := by
  cases field <;>
    simp [assign?, Field.kind, ← map_text?, ← map_texts?, ← map_integer?, ← map_boolean?]

theorem value?_of_assign? (taken : assign? field value settings = some assigned) (other : Field) :
    assigned.value? other = if other = field then value.as? field.kind else settings.value? other := by
  cases field <;> obtain ⟨content, read, rfl⟩ := Option.map_eq_some_iff.mp taken <;> cases other <;>
    simp [value?, Field.kind, ← map_text?, ← map_texts?, ← map_integer?, ← map_boolean?, read]

end Assign

section Entries

variable {entries : Table} {settings : Settings}

theorem assign_eq (entry : Text × Value) :
    (assign entry settings).2 = (refusal? entry).toList ∧
      ∀ field, (assign entry settings).1.value? field =
        (entryValue? field entry).or (settings.value? field) := by
  unfold assign refusal? entryValue?
  cases meant : Field.ofKey? entry.1 with
  | none => simp
  | some field =>
      cases taken : assign? field entry.2 settings with
      | none =>
          have wrong := assign?_eq_none_iff.mp taken
          refine ⟨by simp [taken, wrong], ?_⟩
          intro other
          by_cases same : field = other
          · subst same
            simp [taken, wrong]
          · simp [taken, same]
      | some assigned =>
          obtain ⟨read, held⟩ := Option.ne_none_iff_exists'.mp fun wrong =>
            Option.some_ne_none assigned (taken.symm.trans (assign?_eq_none_iff.mpr wrong))
          refine ⟨by simp [taken, held], ?_⟩
          intro other
          simp only [taken, value?_of_assign? taken]
          by_cases same : other = field
          · simp [same, held]
          · simp [same, Ne.symm same]

theorem notices_assignAll : (assignAll entries settings).2 = entries.filterMap refusal? := by
  induction entries generalizing settings with
  | nil => rfl
  | cons entry entries ih =>
      simp only [assignAll, (assign_eq entry).1, ih]
      cases refused : refusal? entry <;> simp [refused]

theorem value?_assignAll (field : Field) :
    (assignAll entries settings).1.value? field =
      (lastValue? entries field).or (settings.value? field) := by
  induction entries generalizing settings with
  | nil => rfl
  | cons entry entries ih =>
      simp only [assignAll, ih, (assign_eq entry).2, lastValue?, List.reverse_cons,
        List.findSome?_append, Option.or_assoc]
      simp

theorem ofTable_spec (table : Table) :
    (ofTable table).2 = (flatten table).filterMap refusal? ∧
      ∀ field, (ofTable table).1.value? field = lastValue? (flatten table) field := by
  refine ⟨notices_assignAll, ?_⟩
  intro field
  have unset : ({} : Settings).value? field = none := by cases field <;> rfl
  rw [ofTable, value?_assignAll, unset, Option.or_none]

/-- A table says the same whatever is noted of it, as long as that can be shown. -/
theorem parse_eq_ok {table : Table} {made : Settings × List SettingsNotice} :
    parse table = .ok made ↔
      ofTable table = made ∧ ∀ notice ∈ (flatten table).filterMap refusal?, notice.isShowable = true := by
  rw [← (ofTable_spec table).1, ← List.all_eq_true]
  change (if (ofTable table).2.all SettingsNotice.isShowable then Except.ok (ofTable table)
    else .error SettingsError.tooNested) = .ok made ↔ _
  split
  · rename_i shown
    simp [shown]
  · rename_i hidden
    simp [hidden]

end Entries

/-! ### Tables in a table -/

/-- The entries of a table, with those of a table in it in its place. -/
def unfolded (table : Table) : Table :=
  table.flatMap fun entry =>
    match entry.2 with
    | .table entries => entries
    | _ => [entry]

/-- An entry for every name in a table and its tables, with the last value that stands under it. -/
structure Unfolds (table entries : Table) : Prop where
  distinct : (entries.map Prod.fst).Nodup
  latest : ∀ name, entries.find? name = Toml.Table.find? (unfolded table).reverse name
  whole : ((unfolded table).map Prod.fst).Nodup → entries = unfolded table

section Flatten

variable {flat entries : Table}

def setAll (flat entries : Table) : Table := entries.foldl (fun flat entry => flat.set entry.1 entry.2) flat

theorem flatten_eq (table : Table) : flatten table = setAll [] (unfolded table) := by
  rw [flatten, setAll, unfolded, List.foldl_flatMap]
  congr
  funext flat entry
  obtain ⟨name, value⟩ := entry
  cases value <;> rfl

theorem set_of_fresh {name : Text} (value : Value) {table : Table} (fresh : name ∉ table.map Prod.fst) :
    table.set name value = table ++ [(name, value)] := by
  induction table with
  | nil => rfl
  | cons entry table ih =>
      obtain ⟨other, old⟩ := entry
      simp only [List.map_cons, List.mem_cons, not_or] at fresh
      rw [Toml.Table.set, if_neg (Ne.symm fresh.1), ih fresh.2, List.cons_append]

theorem map_fst_set_of_mem {name : Text} (value : Value) {table : Table}
    (there : name ∈ table.map Prod.fst) : (table.set name value).map Prod.fst = table.map Prod.fst := by
  induction table with
  | nil => cases there
  | cons entry table ih =>
      obtain ⟨other, old⟩ := entry
      by_cases same : other = name
      · rw [Toml.Table.set, if_pos same, List.map_cons, List.map_cons, same]
      · have later := (List.mem_cons.mp there).resolve_left (Ne.symm same)
        rw [Toml.Table.set, if_neg same, List.map_cons, List.map_cons, ih later]

theorem nodup_setAll (distinct : (flat.map Prod.fst).Nodup) : ((setAll flat entries).map Prod.fst).Nodup := by
  induction entries generalizing flat with
  | nil => exact distinct
  | cons entry entries ih =>
      obtain ⟨name, value⟩ := entry
      apply ih
      by_cases there : name ∈ flat.map Prod.fst
      · exact (map_fst_set_of_mem value there).symm ▸ distinct
      · simp only [set_of_fresh value there, List.map_append, List.nodup_append]
        refine ⟨distinct, by simp, ?_⟩
        rintro key held _ last rfl
        obtain rfl : key = name := by simpa using last
        exact there held

theorem find?_setAll (name : Text) :
    (setAll flat entries).find? name = (Toml.Table.find? entries.reverse name).or (flat.find? name) := by
  induction entries generalizing flat with
  | nil => rfl
  | cons entry entries ih =>
      obtain ⟨key, value⟩ := entry
      have first : (flat.set key value).find? name =
          (Toml.Table.find? [(key, value)] name).or (flat.find? name) := by
        by_cases same : name = key
        · rw [same, Toml.Table.find?_set]
          simp [Toml.Table.find?]
        · rw [Toml.Table.find?_set_of_ne value flat same]
          simp [Toml.Table.find?, List.lookup_cons, beq_eq_false_iff_ne.mpr same]
      have split : Toml.Table.find? ((key, value) :: entries).reverse name =
          (Toml.Table.find? entries.reverse name).or (Toml.Table.find? [(key, value)] name) := by
        rw [List.reverse_cons, Toml.Table.find?, List.lookup_append]
        rfl
      rw [split, Option.or_assoc, ← first]
      exact ih

theorem setAll_of_distinct (distinct : ((flat ++ entries).map Prod.fst).Nodup) :
    setAll flat entries = flat ++ entries := by
  induction entries generalizing flat with
  | nil => simp [setAll]
  | cons entry entries ih =>
      have shape : flat ++ entry :: entries = (flat ++ [entry]) ++ entries := by simp
      have fresh : entry.1 ∉ flat.map Prod.fst := by
        rw [List.map_append, List.map_cons] at distinct
        exact fun held => (List.nodup_append.mp distinct).2.2 _ held _ (List.mem_cons_self ..) rfl
      rw [shape] at distinct ⊢
      rw [← ih distinct, ← set_of_fresh entry.2 fresh]
      rfl

theorem unfolds_flatten (table : Table) : Unfolds table (flatten table) where
  distinct := by
    rw [flatten_eq]
    exact nodup_setAll (by simp)
  latest := by
    intro name
    rw [flatten_eq, find?_setAll]
    simp [Toml.Table.find?]
  whole := by
    intro distinct
    rw [flatten_eq, setAll_of_distinct (by simpa using distinct), List.nil_append]

end Flatten

end Settings

end PathSearch
