import PathSearch.Proofs.Results
import PathSearch.Proofs.Settings.Taken
import PathSearch.Proofs.Tree.Canonical
import PathSearch.Settings.File

/-!
Which config files end a run before the query starts. The search asks a shared file for the section under
any value of its tools that can be asked, and loading takes both for tables; nothing but the entries of the
section is checked.
-/

namespace PathSearch.Settings

open Toml (Table Value)

/-- A regular file with a text in it. -/
def Holds (system : FileSystem) (file : Path) (content : Text) : Prop :=
  system.isFile file = .ok true ∧ ∃ bytes source, system.readFile file = .ok bytes ∧
    String.fromUTF8? bytes = some source ∧ content = source.toList

theorem Holds.unique {system : FileSystem} {file : Path} {content other : Text}
    (holds : Holds system file content) (again : Holds system file other) : content = other := by
  obtain ⟨-, bytes, source, read, text, rfl⟩ := holds
  obtain ⟨-, _, written, reread, same, rfl⟩ := again
  obtain rfl := Except.ok.inj (read.symm.trans reread)
  rw [Option.some.inj (text.symm.trans same)]

/-- Whatever may be the config for a directory is text that can be read, if it is a file at all. -/
def AllLegible (system : FileSystem) (directory : Path) : Prop :=
  ∀ file ∈ candidates directory, system.isFile file = .ok false ∨ ∃ content, Holds system file content

def document (content : Text) : Except Toml.Fault Table := Toml.Document.read (unifyLineEnds content)

/-- The search comes to the file: none before it has a config. -/
def Reaches (system : FileSystem) (directory file : Path) : Prop :=
  ∃ before after, candidates directory = before ++ file :: after ∧
    ∀ other ∈ before, isUsable system other = .ok false

/-- The entries that are for this program: in a shared file those of its section. -/
def IsSection (file : Path) (table entries : Table) : Prop :=
  if file.name = sharedFile then
    ∃ tools : Table, table.find? toolsKey = some (.table tools) ∧
      tools.find? sectionKey = some (.table entries)
  else entries = table

/-- The path does not start in the home directory of someone without one. -/
def KnowsHome (homeOf : Text → Option Path) (path : Path) : Prop :=
  ∀ user rest, path.anchor = .here → path.names = ('~' :: user) :: rest →
    ∃ home, homeOf user = some home

/-- A document that does not end the run: it is within the limits of the format's reader, its section, if it
is mentioned, is a table in a table, what is noted of it can be shown, and the base directory is in no home
that is not known. -/
def IsSound (homeOf : Text → Option Path) (file : Path) : Except Toml.Fault Table → Prop
  | .error fault => fault = .malformed
  | .ok table =>
      (file.name = sharedFile ∧
        ∀ tools, table.find? toolsKey = some tools → mentionsSection tools = .ok false) ∨
        ∃ entries, IsSection file table entries ∧
          (∀ notice ∈ (flatten entries).filterMap refusal?, notice.isShowable = true) ∧
          ∀ dir, lastValue? (flatten entries) .baseDir = some (.text dir) →
            KnowsHome homeOf (Path.ofText dir)

/-- What is made of entries: a field is set to the last value of its type under one of its keys, the base
directory being taken from the directory of the file, and each other entry is noted. -/
structure Digests (homeOf : Text → Option Path) (file : Path) (entries : Table) (settings : Settings)
    (notices : List SettingsNotice) : Prop where
  noted : notices = entries.filterMap refusal?
  taken : ∀ field, field ≠ .baseDir → settings.value? field = lastValue? entries field
  unset : lastValue? entries .baseDir = none → settings.baseDir = none
  placed : ∀ dir, lastValue? entries .baseDir = some (.text dir) →
    ∃ path, expandHome homeOf (Path.ofText dir) = .ok path ∧
      settings.baseDir = some (file.parent ++ path).text

/-- What is made of a text, which is noted as a whole when it is no document. -/
def Says (homeOf : Text → Option Path) (file : Path) (settings : Settings) (notices : List SettingsNotice) :
    Except Toml.Fault Table → Prop
  | .error _ => settings = {} ∧ notices = [.invalidFile file.text]
  | .ok table => ∃ inner entries, IsSection file table inner ∧ Unfolds inner entries ∧
      Digests homeOf file entries settings notices

/-- The search has an answer, and the file it finds, if any, is loaded for what it says. -/
def Loads (system : FileSystem) (homeOf : Text → Option Path) (start : Path) : Prop :=
  ∃ found, find? system start = .ok found ∧ ∀ file, found = some file →
    ∃ content settings notices, Holds system file content ∧
      load system homeOf file = .ok (settings, notices) ∧
        Says homeOf file settings notices (document content)

section Search

variable {system : FileSystem} {files : List Path} {file : Path}

theorem firstUsable?_cons :
    firstUsable? system (file :: files) =
      match isUsable system file with
      | .error error => .error error
      | .ok true => .ok (some file)
      | .ok false => firstUsable? system files := by
  rw [firstUsable?]
  cases isUsable system file with
  | error error => rfl
  | ok usable => cases usable <;> rfl

theorem firstUsable?_eq_some :
    firstUsable? system files = .ok (some file) ↔
      ∃ before after, files = before ++ file :: after ∧
        (∀ other ∈ before, isUsable system other = .ok false) ∧ isUsable system file = .ok true := by
  constructor
  · intro found
    induction files with
    | nil => cases found
    | cons first files ih =>
        rw [firstUsable?_cons] at found
        cases asked : isUsable system first with
        | error error => simp [asked] at found
        | ok usable =>
            cases usable with
            | true =>
                obtain rfl : first = file := by simpa [asked] using found
                exact ⟨[], files, rfl, by simp, asked⟩
            | false =>
                obtain ⟨before, after, rfl, passed, usable⟩ := ih (by simpa [asked] using found)
                exact ⟨first :: before, after, rfl, List.forall_mem_cons.mpr ⟨asked, passed⟩, usable⟩
  · intro found
    obtain ⟨before, after, rfl, passed, usable⟩ := found
    induction before with
    | nil => rw [List.nil_append, firstUsable?_cons, usable]
    | cons first before ih =>
        obtain ⟨asked, passed⟩ := List.forall_mem_cons.mp passed
        rw [List.cons_append, firstUsable?_cons, asked]
        exact ih passed

theorem exists_firstUsable?_iff :
    (∃ found, firstUsable? system files = .ok found) ↔
      ∀ before file after, files = before ++ file :: after →
        (∀ other ∈ before, isUsable system other = .ok false) →
          ∃ usable, isUsable system file = .ok usable := by
  constructor
  · intro found before file after shape passed
    subst shape
    induction before with
    | nil =>
        obtain ⟨answer, found⟩ := found
        rw [List.nil_append, firstUsable?_cons] at found
        cases asked : isUsable system file with
        | error error => simp [asked] at found
        | ok usable => exact ⟨usable, rfl⟩
    | cons first before ih =>
        obtain ⟨asked, passed⟩ := List.forall_mem_cons.mp passed
        rw [List.cons_append, firstUsable?_cons, asked] at found
        exact ih passed found
  · intro asked
    induction files with
    | nil => exact ⟨none, rfl⟩
    | cons first files ih =>
        rw [firstUsable?_cons]
        obtain ⟨usable, answer⟩ := asked [] first files rfl (by simp)
        rw [answer]
        cases usable with
        | true => exact ⟨some first, rfl⟩
        | false =>
            apply ih
            rintro before file after rfl passed
            exact asked (first :: before) file after rfl (List.forall_mem_cons.mpr ⟨answer, passed⟩)

theorem isUsable_of_not_isFile (none : system.isFile file = .ok false) :
    isUsable system file = .ok false := by
  simp only [isUsable, none]
  rfl

end Search

theorem exists_expandHome_iff {homeOf : Text → Option Path} {path : Path} :
    (∃ expanded, expandHome homeOf path = .ok expanded) ↔ KnowsHome homeOf path := by
  unfold expandHome KnowsHome
  split
  · rename_i user rest here names
    simp only [names, List.cons.injEq, true_and]
    cases known : homeOf user with
    | some home =>
        refine iff_of_true ⟨_, rfl⟩ ?_
        intro other more _ same
        exact ⟨home, same.1 ▸ known⟩
    | none =>
        refine iff_of_false (by simp) ?_
        intro all
        obtain ⟨home, found⟩ := all user rest here ⟨rfl, rfl⟩
        cases known.symm.trans found
  · rename_i other
    exact iff_of_true ⟨path, rfl⟩ fun user rest here names => absurd names (other user rest here)

/-- The entries that loading reads. -/
def sectionOf (file : Path) (table : Table) : Except SettingsError Table := do
  if file.name = sharedFile then subtable (← subtable table toolsKey) sectionKey else pure table

/-- The settings with their base directory taken from the directory of the file. -/
def place (homeOf : Text → Option Path) (file : Path) (made : Settings × List SettingsNotice) :
    Except SettingsError (Settings × List SettingsNotice) := do
  match made.1.baseDir with
  | none => return made
  | some dir =>
      let dir ← expandHome homeOf (Path.ofText dir)
      return ({ made.1 with baseDir := some (file.parent ++ dir).text }, made.2)

/-- What loading makes of them. -/
def digest (homeOf : Text → Option Path) (file : Path) (entries : Table) :
    Except SettingsError (Settings × List SettingsNotice) := parse entries >>= place homeOf file

theorem subtable_eq_ok {table entries : Table} {name : Text} (there : table.find? name ≠ none) :
    subtable table name = .ok entries ↔ table.find? name = some (.table entries) := by
  unfold subtable
  split
  · rename_i missing
    exact absurd missing there
  · rename_i others found
    simp [found]
  · rename_i value other found
    simp only [found, reduceCtorEq, Option.some.injEq, false_iff]
    exact other entries

section Section

variable {file : Path} {table entries : Table}

theorem sectionOf_eq_ok (usable : file.name = sharedFile →
      ∃ tools, table.find? toolsKey = some tools ∧ mentionsSection tools = .ok true) :
    sectionOf file table = .ok entries ↔ IsSection file table entries := by
  unfold sectionOf IsSection
  by_cases shared : file.name = sharedFile
  · obtain ⟨tools, found, mentioned⟩ := usable shared
    rw [if_pos shared, if_pos shared, bind_eq_ok]
    apply exists_congr
    intro inner
    rw [subtable_eq_ok (by simp [found])]
    apply and_congr_right
    intro opened
    obtain rfl := Option.some.inj (found.symm.trans opened)
    apply subtable_eq_ok
    intro missing
    simp only [mentionsSection, Except.ok.injEq, List.any_eq_true, decide_eq_true_eq] at mentioned
    obtain ⟨entry, held, named⟩ := mentioned
    rw [Toml.Table.find?, List.lookup_eq_none_iff] at missing
    simpa [named] using missing entry held
  · rw [if_neg shared, if_neg shared]
    change Except.ok table = .ok entries ↔ entries = table
    simp [eq_comm]

variable {homeOf : Text → Option Path}

theorem map_baseDir_ofTable :
    (ofTable entries).1.baseDir.map Value.text = lastValue? (flatten entries) .baseDir :=
  (ofTable_spec entries).2 .baseDir

theorem exists_place_iff {made : Settings × List SettingsNotice} :
    (∃ loaded, place homeOf file made = .ok loaded) ↔
      ∀ dir, made.1.baseDir.map Value.text = some (.text dir) → KnowsHome homeOf (Path.ofText dir) := by
  unfold place
  cases made.1.baseDir with
  | none => simp [pure, Except.pure]
  | some dir =>
      simp only [Option.map_some, Option.some.injEq, Value.text.injEq, forall_eq']
      rw [← exists_expandHome_iff]
      cases expandHome homeOf (Path.ofText dir) with
      | error error => simp [bind, Except.bind]
      | ok path => simp [bind, Except.bind, pure, Except.pure]

theorem digest_eq_ok {loaded : Settings × List SettingsNotice} :
    digest homeOf file entries = .ok loaded ↔
      (∀ notice ∈ (flatten entries).filterMap refusal?, notice.isShowable = true) ∧
        place homeOf file (ofTable entries) = .ok loaded := by
  rw [digest, bind_eq_ok]
  simp only [parse_eq_ok]
  constructor
  · intro found
    obtain ⟨_, ⟨rfl, shown⟩, placed⟩ := found
    exact ⟨shown, placed⟩
  · intro both
    exact ⟨_, ⟨rfl, both.1⟩, both.2⟩

theorem exists_digest_iff :
    (∃ loaded, digest homeOf file entries = .ok loaded) ↔
      (∀ notice ∈ (flatten entries).filterMap refusal?, notice.isShowable = true) ∧
        ∀ dir, lastValue? (flatten entries) .baseDir = some (.text dir) →
          KnowsHome homeOf (Path.ofText dir) := by
  rw [← map_baseDir_ofTable, ← @exists_place_iff file]
  simp only [digest_eq_ok, exists_and_left]

theorem digests_of_digest {settings : Settings} {notices : List SettingsNotice}
    (loaded : digest homeOf file entries = .ok (settings, notices)) :
    Digests homeOf file (flatten entries) settings notices := by
  obtain ⟨noted, taken⟩ := ofTable_spec entries
  have based := @map_baseDir_ofTable entries
  have placed := (digest_eq_ok.mp loaded).2
  unfold place at placed
  generalize ofTable entries = made at noted taken based placed
  obtain ⟨first, refused⟩ := made
  simp only at noted taken based placed
  cases given : first.baseDir with
  | none =>
      simp only [given, pure, Except.pure, Except.ok.injEq, Prod.mk.injEq] at placed
      obtain ⟨rfl, rfl⟩ := placed
      rw [given, Option.map_none] at based
      exact ⟨noted, fun field _ => taken field, fun _ => given, by simp [← based]⟩
  | some dir =>
      rw [given, Option.map_some] at based
      simp only [given, bind_eq_ok, pure, Except.pure, Except.ok.injEq, Prod.mk.injEq] at placed
      obtain ⟨path, expanded, rfl, rfl⟩ := placed
      refine ⟨noted, ?_, by simp [← based], ?_⟩
      · intro field other
        rw [← taken field]
        cases field <;> first | rfl | exact absurd rfl other
      · intro written same
        obtain rfl : dir = written := by simpa [← based] using same
        exact ⟨path, expanded, rfl⟩

end Section

section File

variable {system : FileSystem} {homeOf : Text → Option Path} {file : Path} {content : Text}
  (holds : Holds system file content)

include holds

theorem readTable?_of_holds :
    readTable? system file =
      match document content with
      | .ok table => .ok (some table)
      | .error .malformed => .ok none
      | .error .tooManyDigits => .error .tooManyDigits
      | .error .tooNested => .error .tooNested := by
  obtain ⟨-, bytes, source, read, text, rfl⟩ := holds
  rw [readTable?, mapError_eq_ok.mpr read]
  simp only [bind, Except.bind, text]
  rfl

theorem load_of_holds :
    load system homeOf file =
      match document content with
      | .ok table => sectionOf file table >>= digest homeOf file
      | .error .malformed => .ok ({}, [.invalidFile file.text])
      | .error .tooManyDigits => .error .tooManyDigits
      | .error .tooNested => .error .tooNested := by
  rw [load, readTable?_of_holds holds]
  cases document content with
  | error fault => cases fault <;> rfl
  | ok table =>
      simp only [sectionOf]
      by_cases shared : file.name = sharedFile
      · simp only [if_pos shared, bind_assoc]
        rfl
      · simp only [if_neg shared]
        rfl

theorem isUsable_of_holds :
    isUsable system file =
      if file.name = sharedFile then
        match document content with
        | .ok table =>
            match table.find? toolsKey with
            | none => .ok false
            | some tools => mentionsSection tools
        | .error .malformed => .ok false
        | .error .tooManyDigits => .error .tooManyDigits
        | .error .tooNested => .error .tooNested
      else .ok true := by
  have asked : isUsable system file =
      if file.name = sharedFile then hasSection system file else .ok true := by
    rw [isUsable, holds.1]
    rfl
  rw [asked, hasSection, readTable?_of_holds holds]
  cases document content with
  | ok table => rfl
  | error fault => cases fault <;> rfl

theorem exists_isUsable_of_isSound (sound : IsSound homeOf file (document content)) :
    ∃ usable, isUsable system file = .ok usable := by
  rw [isUsable_of_holds holds]
  by_cases shared : file.name = sharedFile
  · rw [if_pos shared]
    cases read : document content with
    | error fault =>
        rw [read] at sound
        obtain rfl : fault = .malformed := sound
        exact ⟨false, rfl⟩
    | ok table =>
        rw [read] at sound
        rcases sound with ⟨-, unmentioned⟩ | ⟨entries, inner, -⟩
        · cases found : table.find? toolsKey with
          | none => exact ⟨false, by simp [found]⟩
          | some tools => exact ⟨false, by simp [found, unmentioned tools found]⟩
        · rw [IsSection, if_pos shared] at inner
          obtain ⟨tools, found, -⟩ := inner
          simp only [found, mentionsSection]
          exact ⟨_, rfl⟩
  · exact ⟨true, if_neg shared⟩

theorem isSound_of_unusable (unusable : isUsable system file = .ok false) :
    IsSound homeOf file (document content) := by
  rw [isUsable_of_holds holds] at unusable
  by_cases shared : file.name = sharedFile
  · rw [if_pos shared] at unusable
    cases read : document content with
    | error fault => cases fault <;> simp_all [IsSound]
    | ok table =>
        refine .inl ⟨shared, ?_⟩
        intro tools found
        simpa [read, found] using unusable
  · simp [if_neg shared] at unusable

section Usable

variable (usable : isUsable system file = .ok true)

include usable

theorem exists_tools_of_usable {table : Table} (read : document content = .ok table)
    (shared : file.name = sharedFile) :
    ∃ tools, table.find? toolsKey = some tools ∧ mentionsSection tools = .ok true := by
  rw [isUsable_of_holds holds, if_pos shared, read] at usable
  cases found : table.find? toolsKey with
  | none => simp [found] at usable
  | some tools => exact ⟨tools, rfl, by simpa [found] using usable⟩

theorem exists_load_iff :
    (∃ loaded, load system homeOf file = .ok loaded) ↔ IsSound homeOf file (document content) := by
  rw [load_of_holds holds]
  cases read : document content with
  | error fault => cases fault <;> simp [IsSound]
  | ok table =>
      have tools := exists_tools_of_usable holds usable read
      simp only [bind_eq_ok, IsSound, ← sectionOf_eq_ok tools]
      constructor
      · intro found
        obtain ⟨loaded, entries, inner, made⟩ := found
        exact .inr ⟨entries, inner, exists_digest_iff.mp ⟨loaded, made⟩⟩
      · intro sound
        rcases sound with ⟨shared, unmentioned⟩ | ⟨entries, inner, placed⟩
        · obtain ⟨value, found, mentioned⟩ := tools shared
          cases (unmentioned value found).symm.trans mentioned
        · have made : ∃ loaded, digest homeOf file entries = .ok loaded := exists_digest_iff.mpr placed
          exact made.imp fun loaded made => ⟨entries, inner, made⟩

theorem says_of_load {settings : Settings} {notices : List SettingsNotice}
    (loaded : load system homeOf file = .ok (settings, notices)) :
    Says homeOf file settings notices (document content) := by
  rw [load_of_holds holds] at loaded
  cases read : document content with
  | error fault => cases fault <;> simp_all [Says]
  | ok table =>
      rw [read] at loaded
      obtain ⟨entries, inner, made⟩ := bind_eq_ok.mp loaded
      exact ⟨entries, flatten entries,
        (sectionOf_eq_ok (exists_tools_of_usable holds usable read)).mp inner, unfolds_flatten entries,
        digests_of_digest made⟩

end Usable

end File

/-- For files that can be read, the search and the loading of what it finds go wrong exactly where the start
has no canonical form, or on a document that the search comes to. A start that can be looked at has one, and
there lies what it leads to. -/
theorem loads_iff {system : FileSystem} {homeOf : Text → Option Path} {start : Path}
    (legible : ∀ directory, system.canonical start = .ok directory → AllLegible system directory) :
    (Loads system homeOf start ↔
      ∃ directory, system.canonical start = .ok directory ∧
        ∀ file content, Reaches system directory file → Holds system file content →
          IsSound homeOf file (document content)) ∧
    (system.IsSettled → ∀ location node, system.status start = .ok (location, node) →
      ∃ directory, system.canonical start = .ok directory ∧ directory.IsNormal ∧
        system.Locates directory location) := by
  refine ⟨?_, fun settled location node found => FileSystem.exists_canonical settled found⟩
  cases canonical : system.canonical start with
  | error error =>
      have search : find? system start = .error (.ofCanonical error) := by
        rw [find?, canonical]
        rfl
      simp [Loads, search]
  | ok directory =>
      have search : find? system start = firstUsable? system (candidates directory) := by
        rw [find?, canonical]
        rfl
      specialize legible directory canonical
      simp only [Loads, search, Except.ok.injEq, exists_eq_left']
      constructor
      · intro loads file content reaches holds
        obtain ⟨before, after, shape, passed⟩ := reaches
        obtain ⟨found, answered, loaded⟩ := loads
        obtain ⟨usable, asked⟩ :=
          exists_firstUsable?_iff.mp ⟨found, answered⟩ before file after shape passed
        cases usable with
        | false => exact isSound_of_unusable holds asked
        | true =>
            have chosen := firstUsable?_eq_some.mpr ⟨before, after, shape, passed, asked⟩
            obtain rfl := Except.ok.inj (answered.symm.trans chosen)
            obtain ⟨_, settings, notices, _, made, -⟩ := loaded file rfl
            exact (exists_load_iff holds asked).mp ⟨_, made⟩
      · intro sound
        have answers : ∃ found, firstUsable? system (candidates directory) = .ok found := by
          rw [exists_firstUsable?_iff]
          intro before file after shape passed
          rcases legible file (by simp [shape]) with none | ⟨content, holds⟩
          · exact ⟨false, isUsable_of_not_isFile none⟩
          · exact exists_isUsable_of_isSound holds
              (sound file content ⟨before, after, shape, passed⟩ holds)
        obtain ⟨found, answered⟩ := answers
        refine ⟨found, answered, ?_⟩
        rintro file rfl
        obtain ⟨before, after, shape, passed, usable⟩ := firstUsable?_eq_some.mp answered
        rcases legible file (by simp [shape]) with none | ⟨content, holds⟩
        · cases (isUsable_of_not_isFile none).symm.trans usable
        · obtain ⟨⟨settings, notices⟩, loaded⟩ := (exists_load_iff holds usable).mpr
            (sound file content ⟨before, after, shape, passed⟩ holds)
          exact ⟨content, settings, notices, holds, loaded, says_of_load holds usable loaded⟩

section Shared

/-- Nothing but one shared file below the root. -/
def shared (content : String) : FileSystem :=
  ⟨Tree.empty.add [sharedFile] (.file content.toUTF8), [], .root⟩

variable (content : String)

theorem holds_shared : Holds (shared content) (Path.root ++ Path.ofText sharedFile) content.toList := by
  refine ⟨rfl, content.toUTF8, content, rfl, ?_, rfl⟩
  rw [String.fromUTF8?, String.toUTF8_eq_toByteArray, dif_pos content.isValidUTF8]
  rfl

theorem canonical_shared : (shared content).canonical .root = .ok .root := rfl

theorem isSettled_shared : (shared content).IsSettled := by
  refine ⟨show Path.root.IsAbsolute by decide, [], ?_⟩
  exact (shared content).locates_root

theorem mem_candidates_shared {file : Path} (member : file ∈ candidates .root) :
    (shared content).isFile file = .ok false ∨ file = Path.root ++ Path.ofText sharedFile := by
  have listed : candidates .root = fileNames.map fun name => Path.root ++ Path.ofText name := rfl
  rw [listed, fileNames] at member
  simp only [List.map_cons, List.map_nil, List.mem_cons, List.not_mem_nil, or_false] at member
  rcases member with rfl | rfl | rfl
  · exact .inl rfl
  · exact .inl rfl
  · exact .inr rfl

theorem allLegible_shared {directory : Path}
    (canonical : (shared content).canonical .root = .ok directory) :
    AllLegible (shared content) directory := by
  obtain rfl := Except.ok.inj ((canonical_shared content).symm.trans canonical)
  intro file member
  rcases mem_candidates_shared content member with none | rfl
  · exact .inl none
  · exact .inr ⟨_, holds_shared content⟩

/-- How a section and what is asked of it are read off where tables cannot be compared. -/
theorem exists_entries_of_match {content : Text} {asked : Table → Bool}
    (found : (match document content with
      | .ok [(tools, .table [(name, .table entries)])] =>
          tools == toolsKey && name == sectionKey && asked entries
      | _ => false) = true) :
    ∃ entries, document content = .ok [(toolsKey, .table [(sectionKey, .table entries)])] ∧
      asked entries = true := by
  split at found
  next tools name entries read =>
    simp only [Bool.and_eq_true, beq_iff_eq] at found
    obtain ⟨⟨rfl, rfl⟩, kept⟩ := found
    exact ⟨entries, read, kept⟩
  next => cases found

end Shared

/-- A key that is not known and a value of another type leave the rest of the section as it is. -/
theorem loads_shared :
    let system := shared "[tool.globpathfinder]\nsize = 1\nmax-depth = true\nonly-files = false\n"
    (∀ directory, system.canonical .root = .ok directory → AllLegible system directory) ∧
      system.IsSettled ∧ system.status .root = .ok ([], some system.tree.root) ∧
        Loads system (fun _ => none) .root := by
  intro system
  let asked (entries : Table) : Bool :=
    (lastValue? (flatten entries) .baseDir).isNone &&
      ((flatten entries).filterMap refusal?).all SettingsNotice.isShowable
  have written : ∃ content entries, system = shared content ∧
      document content.toList = .ok [(toolsKey, .table [(sectionKey, .table entries)])] ∧
      asked entries = true := by
    obtain ⟨entries, read, kept⟩ := @exists_entries_of_match
      "[tool.globpathfinder]\nsize = 1\nmax-depth = true\nonly-files = false\n".toList asked
      (by decide +kernel)
    exact ⟨_, entries, rfl, read, kept⟩
  obtain ⟨content, entries, same, read, kept⟩ := written
  obtain ⟨unset, shown⟩ := Bool.and_eq_true_iff.mp kept
  rw [same]
  have legible := fun directory => @allLegible_shared content directory
  have settled := isSettled_shared content
  have found : (shared content).status .root = .ok ([], some (shared content).tree.root) := rfl
  obtain ⟨loads, canonical⟩ := @loads_iff _ (fun _ => none) _ legible
  obtain ⟨directory, answer, -⟩ := canonical settled _ _ found
  obtain rfl := Except.ok.inj ((canonical_shared content).symm.trans answer)
  refine ⟨legible, settled, found, loads.mpr ⟨.root, answer, ?_⟩⟩
  intro file text reaches holds
  obtain ⟨before, after, shape, -⟩ := reaches
  rcases mem_candidates_shared content (show file ∈ candidates .root by simp [shape]) with none | rfl
  · cases none.symm.trans holds.1
  · rw [holds.unique (holds_shared content), read]
    have inner : IsSection (Path.root ++ Path.ofText sharedFile)
        [(toolsKey, .table [(sectionKey, .table entries)])] entries := by
      rw [IsSection, if_pos (show (Path.root ++ Path.ofText sharedFile).name = sharedFile from rfl)]
      exact ⟨_, rfl, rfl⟩
    exact .inr ⟨entries, inner, List.all_eq_true.mp shown, fun dir given => by simp [given] at unset⟩

theorem not_loads :
    (∀ content : String, ∀ directory, (shared content).canonical .root = .ok directory →
      AllLegible (shared content) directory) ∧
    ¬ Loads (shared "tool = 1\n") (fun _ => none) .root ∧
    ¬ Loads (shared "[tool]\nglobpathfinder = 1\n") (fun _ => none) .root ∧
    ¬ Loads (shared "[tool.globpathfinder]\nbase-dir = \"~x\"\n") (fun _ => none) .root := by
  refine ⟨fun content directory => allLegible_shared content, ?_, ?_, ?_⟩
  · intro loads
    obtain ⟨found, answered, -⟩ := loads
    have stopped : find? (shared "tool = 1\n") .root = .error .notSearchable :=
      eq_error_of_match (by decide +kernel)
    cases stopped.symm.trans answered
  · intro loads
    obtain ⟨found, answered, loaded⟩ := loads
    have chosen : find? (shared "[tool]\nglobpathfinder = 1\n") .root =
        .ok (some (Path.root ++ Path.ofText sharedFile)) := eq_ok_of_toOption (by decide +kernel)
    obtain rfl := Except.ok.inj (answered.symm.trans chosen)
    obtain ⟨content, settings, notices, -, made, -⟩ := loaded _ rfl
    have stopped : load (shared "[tool]\nglobpathfinder = 1\n") (fun _ => none)
        (Path.root ++ Path.ofText sharedFile) = .error .notTable := eq_error_of_match (by decide +kernel)
    cases stopped.symm.trans made
  · intro loads
    obtain ⟨found, answered, loaded⟩ := loads
    have chosen : find? (shared "[tool.globpathfinder]\nbase-dir = \"~x\"\n") .root =
        .ok (some (Path.root ++ Path.ofText sharedFile)) := eq_ok_of_toOption (by decide +kernel)
    obtain rfl := Except.ok.inj (answered.symm.trans chosen)
    obtain ⟨content, settings, notices, -, made, -⟩ := loaded _ rfl
    have stopped : load (shared "[tool.globpathfinder]\nbase-dir = \"~x\"\n") (fun _ => none)
        (Path.root ++ Path.ofText sharedFile) = .error (.unknownHome ['x']) :=
      eq_error_of_match (by decide +kernel)
    cases stopped.symm.trans made

end PathSearch.Settings
