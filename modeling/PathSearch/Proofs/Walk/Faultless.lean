import PathSearch.Proofs.Walk.Reports

/-!
A walk beside the walk of the same tree without faults. A fault takes away what lies at or below the
path of a failure that is reported for it, and nothing else.
-/

namespace PathSearch

/-- The directory with more names to come, and then no failure. -/
def Frame.prolonged (frame : Frame) (more : List Text) : Frame :=
  { frame with listing := ⟨frame.listing.names ++ more, none⟩ }

theorem Frame.prolonged_awaiting (frame : Frame) (names more : List Text) :
    (frame.awaiting names).prolonged more = (frame.prolonged more).awaiting (names ++ more) := rfl

/-- The directory with everything that lies in it, listed from the start and without a failure. -/
def Frame.restored (system : FileSystem) (frame : Frame) : Frame :=
  { frame with listing := ⟨system.tree.children frame.location, none⟩ }

namespace FileSystem

variable {system : FileSystem} {location : Location} {path : Path}

theorem status_faultless {node : Option Node} (found : system.status path = .ok (location, node)) :
    system.faultless.status path = .ok (location, node) := by
  obtain ⟨clear, resolved, -, rfl⟩ := status_eq_ok.mp found
  rw [← resolve_faultless] at resolved
  exact status_eq_ok.mpr ⟨clear, resolved, guard_faultless .., rfl⟩

/-- A listing breaks off before its first name that does not come. -/
theorem exists_failure_of_missing {listing : Listing} (listed : system.listAt location = .ok listing)
    {name : Text} (inside : name ∈ system.tree.children location) (gone : name ∉ listing.names) :
    ∃ cause, listing.failure = some cause ∧
      ∃ fault ∈ system.faults, fault.cause = cause ∧ fault.location = location := by
  have lists := lists_listAt system location
  rw [listed] at lists
  cases lists with
  | whole => exact absurd inside gone
  | broken _ _ breaks => exact ⟨_, rfl, exists_fault_of_iterationFault? breaks⟩

theorem exists_fault_of_failure {listing : Listing} (listed : system.listAt location = .ok listing)
    {cause : FileCause} (failed : listing.failure = some cause) :
    ∃ fault ∈ system.faults, fault.cause = cause ∧ fault.location = location := by
  have lists := lists_listAt system location
  rw [listed] at lists
  cases lists with
  | whole => cases failed
  | broken _ _ breaks =>
      cases failed
      exact exists_fault_of_iterationFault? breaks

theorem exists_fault_of_listAt {cause : FileCause} (inside : system.tree.isDir location = true)
    (refused : system.listAt location = .error cause) :
    ∃ fault ∈ system.faults, fault.cause = cause ∧ fault.location = location := by
  have lists := lists_listAt system location
  rw [refused] at lists
  cases lists with
  | outside outside => simp [inside] at outside
  | refused _ refused => exact exists_fault_of_guard refused

end FileSystem

namespace Walk

variable {system : FileSystem} {options : WalkOptions} {root path : Path} {walk : Walk}
  {frame inner clean : Frame} {above : List Location} {name : Text} {error : FileError}

theorem exists_prolonged (listed : system.listAt frame.location = .ok frame.listing) :
    ∃ more, frame.restored system = frame.prolonged more := by
  obtain ⟨more, split⟩ := FileSystem.names_prefix_of_listAt listed
  exact ⟨more, by rw [Frame.restored, Frame.prolonged, split]⟩

section Visit

theorem entryKind_faultless_of_ok (present : ∀ fault ∈ system.faults, fault.cause ≠ .missing)
    {follow : Bool} {directory : Path} {base : Location} {kind : FileSystem.EntryKind}
    (found : system.entryKind follow directory base name = .ok kind) :
    system.faultless.entryKind follow directory base name = .ok kind := by
  rcases FileSystem.entryKind_faultless present follow directory base name with same | ⟨_, failed, _⟩
  · exact same.trans found
  · cases failed.symm.trans found

theorem Enters.faultless (present : ∀ fault ∈ system.faults, fault.cause ≠ .missing)
    (enters : Enters system options frame above name inner) :
    Enters system.faultless options frame above name (inner.restored system) where
  path := enters.path
  depth := enters.depth
  kind := entryKind_faultless_of_ok present enters.kind
  deep := enters.deep
  free := fun follows => ⟨rfl, (enters.free follows).2⟩
  listed := FileSystem.listAt_faultless (isDir_of_listAt system enters.listed)

/-- Without faults an entry comes to one failure and nothing else, or to no failure at all. -/
theorem visit_faultless_cases (resolved : system.resolve frame.path = .ok frame.location)
    (inside : system.tree.isDir frame.location = true) (named : IsEntryName name) :
    (∃ error, visit system.faultless options frame above name =
        ([.failure (frame.path ++ Path.ofText name) error], none)) ∨
      ∀ item ∈ (visit system.faultless options frame above name).1, item.isEntry = true := by
  have visits := visits_visit system.faultless options frame above name
  generalize visit system.faultless options frame above name = result at visits
  have whole : ∀ kind, ∀ item ∈ itemsOf options (frame.path ++ Path.ofText name) kind,
      item.isEntry = true := by
    intro kind item member
    rw [itemsOf_path member]
    rfl
  cases visits with
  | unknown => exact .inl ⟨_, rfl⟩
  | hidden => exact .inl ⟨_, rfl⟩
  | circular => exact .inl ⟨_, rfl⟩
  | leaf => exact .inr (whole _)
  | shallow => exact .inr (whole _)
  | entered => exact .inr (whole _)
  | closed kind _ _ refused =>
      rw [← FileSystem.resolve_faultless] at resolved
      obtain ⟨-, held⟩ := FileSystem.resolve_of_entryKind resolved inside named kind
      cases refused.symm.trans (FileSystem.listAt_faultless held)

/-- The entry costs something because of a fault: the walk goes into nothing there, and reports, with at
most the entry itself, a failure that it would not report otherwise. -/
def Costs (system : FileSystem) (options : WalkOptions) (frame : Frame) (above : List Location)
    (name : Text) : Prop :=
  ∃ kept error, visit system options frame above name =
      (kept ++ [.failure (frame.path ++ Path.ofText name) error], none) ∧
    kept.Sublist (visit system.faultless options frame above name).1 ∧
    .failure (frame.path ++ Path.ofText name) error ∉
      (visit system.faultless options frame above name).1 ∧
    ∃ fault ∈ system.faults, fault.cause = error.cause ∧
      system.Names (frame.path ++ Path.ofText name) fault.location

theorem costs_or_same (resolved : system.resolve frame.path = .ok frame.location)
    (inside : system.tree.isDir frame.location = true) (named : IsEntryName name)
    (shape : visit system options frame above name =
      ([.failure (frame.path ++ Path.ofText name) error], none))
    (faulty : ∃ fault ∈ system.faults, fault.cause = error.cause ∧
      system.Names (frame.path ++ Path.ofText name) fault.location) :
    visit system.faultless options frame above name = visit system options frame above name ∨
      Costs system options frame above name := by
  have clean := @visit_faultless_cases system options frame above name resolved inside named
  by_cases reported : WalkItem.failure (frame.path ++ Path.ofText name) error ∈
      (visit system.faultless options frame above name).1
  · rcases clean with ⟨other, single⟩ | entries
    · rw [single] at reported
      exact .inl (by rw [single, shape, List.mem_singleton.mp reported])
    · cases entries _ reported
  · exact .inr ⟨[], error, shape, List.nil_sublist _, reported, faulty⟩

/-- An entry comes to the same with faults and without, or a fault costs something there. -/
theorem visit_faultless (present : ∀ fault ∈ system.faults, fault.cause ≠ .missing)
    (resolved : system.resolve frame.path = .ok frame.location)
    (inside : system.tree.isDir frame.location = true) (named : IsEntryName name) :
    visit system.faultless options frame above name =
        ((visit system options frame above name).1,
          (visit system options frame above name).2.map (Frame.restored system)) ∨
      Costs system options frame above name := by
  have visits := visits_visit system options frame above name
  generalize shape : visit system options frame above name = result at visits
  cases visits with
  | unknown unknown =>
      rcases FileSystem.entryKind_faultless present options.followLinks frame.path frame.location name
        with same | ⟨other, failed, fault, member, cause, place⟩
      · exact .inl (Visits.unknown (same.trans unknown)).visit_eq
      · cases failed.symm.trans unknown
        have faulty : system.Names (frame.path ++ Path.ofText name) fault.location := by
          rcases place with place | place
          · exact .inr ⟨_, _, _, rfl, resolved, place⟩
          · exact .inl place
        exact (costs_or_same resolved inside named shape ⟨fault, member, cause, faulty⟩).imp_left
          fun same => same.trans shape
  | leaf kind => exact .inl (Visits.leaf (entryKind_faultless_of_ok present kind)).visit_eq
  | shallow kind shallow =>
      exact .inl (Visits.shallow (entryKind_faultless_of_ok present kind) shallow).visit_eq
  | hidden kind _ _ refused =>
      obtain ⟨leads, held⟩ := FileSystem.resolve_of_entryKind resolved inside named kind
      obtain ⟨fault, member, cause, rfl⟩ := FileSystem.exists_fault_of_guard refused
      exact (costs_or_same resolved inside named shape ⟨fault, member, cause, .inl leads⟩).imp_left
        fun same => same.trans shape
  | circular kind deep follows _ around =>
      have clean := entryKind_faultless_of_ok present kind
      exact .inl (Visits.circular clean deep follows rfl around).visit_eq
  | closed kind deep free refused =>
      obtain ⟨leads, held⟩ := FileSystem.resolve_of_entryKind resolved inside named kind
      obtain ⟨fault, member, cause, rfl⟩ := FileSystem.exists_fault_of_listAt held refused
      have clean := entryKind_faultless_of_ok present kind
      have entered := @Visits.entered _ _ _ above _ _ _ clean deep
        (fun follows => ⟨rfl, (free follows).2⟩) (FileSystem.listAt_faultless held)
      refine .inr ⟨_, _, shape, ?_, ?_, fault, member, cause, .inl leads⟩
      · simp [entered.visit_eq]
      · rw [entered.visit_eq]
        intro reported
        cases itemsOf_path reported
  | @entered target listing kind deep free listed =>
      have enters : Enters system options frame above name
          ⟨frame.path ++ Path.ofText name, target, frame.depth + 1, listing⟩ :=
        ⟨rfl, rfl, kind, deep, free, listed⟩
      exact .inl (enters.faultless present).visit_eq

end Visit

end Walk

end PathSearch
