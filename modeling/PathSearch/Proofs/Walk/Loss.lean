import PathSearch.Proofs.Walk.Faultless

/-!
What faults cost a whole walk: what is left of its entries keeps its order, each entry that is gone lies
at or below a failure that the faults account for.
-/

namespace PathSearch.Walk

variable {system : FileSystem} {options : WalkOptions} {root path : Path} {walk : Walk}
  {frame inner other clean : Frame} {above around : List Location} {name otherName : Text}
  {item : WalkItem} {error : FileError}

/-- An entry is in one directory of the walk only. -/
theorem Opens.unique_entry (opened : Opens system options root frame above)
    (member : name ∈ frame.listing.names) (again : Opens system options root other around)
    (otherMember : otherName ∈ other.listing.names)
    (same : other.path ++ Path.ofText otherName = frame.path ++ Path.ofText name) :
    other = frame ∧ around = above ∧ otherName = name := by
  obtain ⟨paths, names⟩ := (Path.append_ofText_inj (again.isEntryName otherMember)
    (opened.isEntryName member)).mp same
  obtain ⟨frames, branches⟩ := opened.unique again paths
  exact ⟨frames, branches, names⟩

section Clean

/-- Without faults every listing is whole. -/
theorem Opens.whole (opened : Opens system.faultless options root frame above) :
    frame.listing = ⟨system.tree.children frame.location, none⟩ := by
  have listed := opened.listed
  have inside : system.tree.isDir frame.location = true := opened.inside
  rw [FileSystem.listAt_faultless inside] at listed
  exact (Except.ok.inj listed).symm

theorem reports_faultless_iff :
    Reports system.faultless options root (.failure path error) ↔
      ∃ frame above name, Opens system.faultless options root frame above ∧
        name ∈ frame.listing.names ∧ path = frame.path ++ Path.ofText name ∧
        .failure path error ∈ (visit system.faultless options frame above name).1 := by
  constructor
  · rintro ⟨frame, above, opened, ⟨name, member, reported⟩ | broken⟩
    · exact ⟨frame, above, name, opened, member, path_of_mem_visit reported, reported⟩
    · simp [Frame.breakage, opened.whole] at broken
  · rintro ⟨frame, above, name, opened, member, -, reported⟩
    exact ⟨frame, above, opened, .inl ⟨name, member, reported⟩⟩

theorem not_reports_of_absent (opened : Opens system.faultless options root frame above)
    (member : name ∈ frame.listing.names)
    (absent : .failure (frame.path ++ Path.ofText name) error ∉
      (visit system.faultless options frame above name).1) :
    ¬ Reports system.faultless options root (.failure (frame.path ++ Path.ofText name) error) := by
  rw [reports_faultless_iff]
  rintro ⟨other, around, otherName, again, otherMember, same, reported⟩
  obtain ⟨rfl, rfl, rfl⟩ := opened.unique_entry member again otherMember same.symm
  exact absent reported

/-- Without faults nothing is wrong with a directory that the walk is in. -/
theorem not_reports_of_opens (opened : Opens system.faultless options root frame above) :
    ¬ Reports system.faultless options root (.failure frame.path error) := by
  cases opened with
  | root found deep listed =>
      rw [reports_faultless_iff]
      rintro ⟨other, around, name, again, member, same, -⟩
      have longer := Path.length_names_append other.path (again.isEntryName member)
      have below := again.below_root.length_le
      simp only [← same] at longer
      omega
  | entry outer member enters =>
      rw [enters.path]
      apply not_reports_of_absent outer member
      rw [enters.visit_eq]
      intro reported
      cases itemsOf_path reported

end Clean

variable (present : ∀ fault ∈ system.faults, fault.cause ≠ .missing)

include present

theorem Opens.faultless (opened : Opens system options root frame above) :
    Opens system.faultless options root (frame.restored system) above := by
  induction opened with
  | root found deep listed =>
      exact .root (FileSystem.status_faultless found) deep
        (FileSystem.listAt_faultless (isDir_of_listAt system listed))
  | entry outer member enters ih =>
      exact ih.entry (outer.mem_children member) ((enters.faultless present).relisted _)

section Lost

/-- A failure is reported at the path or above it that would not be reported without the faults. -/
def Loses (system : FileSystem) (options : WalkOptions) (root path : Path) : Prop :=
  ∃ place error, place.Below path ∧ Reports system options root (.failure place error) ∧
    ¬ Reports system.faultless options root (.failure place error)

omit present in
theorem Loses.append (loses : Loses system options root path) (named : IsEntryName name) :
    Loses system options root (path ++ Path.ofText name) := by
  obtain ⟨place, error, below, reported, extra⟩ := loses
  exact ⟨place, error, below.append named, reported, extra⟩

/-- An entry of a directory that the walk lists comes to the same as without faults, or it is lost. -/
theorem visit_or_loses (opened : Opens system options root frame above)
    (member : name ∈ system.tree.children frame.location) :
    (name ∈ frame.listing.names ∧ visit system.faultless options frame above name =
        ((visit system options frame above name).1,
          (visit system options frame above name).2.map (Frame.restored system))) ∨
      Loses system options root (frame.path ++ Path.ofText name) := by
  have named := Tree.isEntryName_of_mem_children member
  have clean := opened.faultless present
  by_cases listed : name ∈ frame.listing.names
  · rcases visit_faultless present opened.resolved opened.inside named with
      same | ⟨kept, error, shape, -, absent, -⟩
    · exact .inl ⟨listed, same⟩
    · right
      have reported : .failure (frame.path ++ Path.ofText name) error ∈
          (visit system options frame above name).1 := by simp [shape]
      have extra := not_reports_of_absent clean member absent
      exact ⟨_, error, .refl _, ⟨frame, above, opened, .inl ⟨name, listed, reported⟩⟩, extra⟩
  · right
    obtain ⟨cause, failed, -⟩ := FileSystem.exists_failure_of_missing opened.listed member listed
    have reported : .failure frame.path ⟨cause, some frame.path.text⟩ ∈ frame.breakage := by
      simp [Frame.breakage, failed]
    have extra := @not_reports_of_opens _ _ _ _ _ ⟨cause, some frame.path.text⟩ clean
    exact ⟨frame.path, _, (Path.Below.refl _).append named, ⟨frame, above, opened, .inr reported⟩, extra⟩

omit present in
/-- A root that has been opened is open with and without faults. -/
theorem exists_listing_of_start {location : Location} {entries : Entries}
    (started : start system options root = .ok walk)
    (found : system.faultless.status root = .ok (location, some (.dir entries)))
    (deep : options.descendsBelow 0 = true) :
    system.status root = .ok (location, some (.dir entries)) ∧
      ∃ listing, system.listAt location = .ok listing := by
  have starts := starts_start system options root
  rw [started] at starts
  cases starts with
  | opened faulty _ listed =>
      cases (FileSystem.status_faultless faulty).symm.trans found
      exact ⟨faulty, _, listed⟩
  | file faulty => cases (FileSystem.status_faultless faulty).symm.trans found
  | other faulty directory =>
      cases (FileSystem.status_faultless faulty).symm.trans found
      exact absurd rfl (directory entries)
  | shallow _ shallow => simp [deep] at shallow

/-- A directory that the walk without faults lists is listed with them too, or it is lost. -/
theorem opens_or_loses (started : start system options root = .ok walk)
    (opened : Opens system.faultless options root clean above) :
    (∃ frame, Opens system options root frame above ∧ clean = frame.restored system) ∨
      Loses system options root clean.path := by
  induction opened with
  | @root location entries listing found deep listed =>
      obtain ⟨status, given, faulty⟩ := exists_listing_of_start started found deep
      have whole := (Opens.root found deep listed).whole
      refine .inl ⟨⟨root, location, 1, given⟩, .root status deep faulty, ?_⟩
      simp only at whole
      rw [whole]
      rfl
  | @entry outer inner above name opened member enters ih =>
      rw [enters.path]
      rcases ih with ⟨frame, faulty, rfl⟩ | loses
      · rcases visit_or_loses present faulty member with ⟨listed, same⟩ | loses
        · have entered : (visit system.faultless options frame above name).2 = some inner :=
            congrArg Prod.snd enters.visit_eq
          rw [same] at entered
          obtain ⟨reached, onward, rfl⟩ := Option.map_eq_some_iff.mp entered
          exact .inl ⟨reached, faulty.entry listed (enters_of_visit onward), rfl⟩
        · exact .inr loses
      · exact .inr (loses.append (opened.isEntryName member))

/-- What the walk without faults reports is reported with them too, or it is lost. -/
theorem reports_or_loses (started : start system options root = .ok walk) {kind : Bool}
    (reports : Reports system.faultless options root (.entry path kind)) :
    Reports system options root (.entry path kind) ∨ Loses system options root path := by
  obtain ⟨clean, above, opened, ⟨name, member, reported⟩ | broken⟩ := reports
  · have place : path = clean.path ++ Path.ofText name := path_of_mem_visit reported
    rw [place]
    rcases opens_or_loses present started opened with ⟨frame, faulty, rfl⟩ | loses
    · rcases visit_or_loses present faulty member with ⟨listed, same⟩ | loses
      · change _ ∈ (visit system.faultless options frame above name).1 at reported
        rw [same] at reported
        rw [← place]
        exact .inl ⟨frame, above, faulty, .inl ⟨name, listed, reported⟩⟩
      · exact .inr loses
    · exact .inr (loses.append (opened.isEntryName member))
  · simp [Frame.breakage, opened.whole] at broken

/-- A failure that is not reported without faults is due to one of them, and names where it lies. -/
theorem exists_fault_of_reports (reports : Reports system options root (.failure path error))
    (extra : ¬ Reports system.faultless options root (.failure path error)) :
    ∃ fault ∈ system.faults, fault.cause = error.cause ∧ system.Names path fault.location := by
  obtain ⟨frame, above, opened, ⟨name, member, reported⟩ | broken⟩ := reports
  · have clean := opened.faultless present
    have listed := opened.mem_children member
    have same : ∀ item ∈ (visit system.faultless options frame above name).1,
        Reports system.faultless options root item :=
      fun item found => ⟨_, above, clean, .inl ⟨name, listed, found⟩⟩
    rcases visit_faultless present opened.resolved opened.inside (opened.isEntryName member) with
      equal | ⟨kept, other, shape, kept, -, fault, faulty, cause, place⟩
    · refine absurd (same _ ?_) extra
      rw [equal]
      exact reported
    · rw [shape] at reported
      rcases List.mem_append.mp reported with reported | reported
      · exact absurd (same _ (kept.subset reported)) extra
      · cases List.mem_singleton.mp reported
        exact ⟨fault, faulty, cause, place⟩
  · unfold Frame.breakage at broken
    split at broken
    · cases broken
    · rename_i cause failed
      cases List.mem_singleton.mp broken
      obtain ⟨fault, faulty, same, place⟩ := FileSystem.exists_fault_of_failure opened.listed failed
      exact ⟨fault, faulty, same, .inl (place ▸ opened.resolved)⟩

end Lost

section Order

/-- The same directories with more names to come, and no failures. -/
inductive Alongside : List Frame → List Frame → Prop where
  | nil : Alongside [] []
  | cons {frame : Frame} {outer others : List Frame} (more : List Text)
      (around : Alongside outer others) : Alongside (frame :: outer) (frame.prolonged more :: others)

omit present in
theorem Alongside.locations {frames others : List Frame} (alongside : Alongside frames others) :
    others.map Frame.location = frames.map Frame.location := by
  induction alongside with
  | nil => rfl
  | cons more _ ih => rw [List.map_cons, List.map_cons, ih]; rfl

omit present in
theorem visit_prolonged (more : List Text) :
    visit system options (frame.prolonged more) above name = visit system options frame above name := rfl

/-- Faults add nothing to what an entry comes to, and the walk goes into it only if it does without
them. -/
theorem visit_sublist (opened : Opens system options root frame above)
    (member : name ∈ frame.listing.names) :
    ((visit system options frame above name).1.filter WalkItem.isEntry).Sublist
        ((visit system.faultless options frame above name).1.filter WalkItem.isEntry) ∧
      ((visit system options frame above name).2 = none ∨
        ∃ inner more, (visit system options frame above name).2 = some inner ∧
          (visit system.faultless options frame above name).2 = some (inner.prolonged more)) := by
  rcases visit_faultless present opened.resolved opened.inside (opened.isEntryName member) with
    same | ⟨kept, error, shape, kept, -⟩
  · rw [same]
    refine ⟨List.Sublist.refl _, ?_⟩
    cases entered : (visit system options frame above name).2 with
    | none => exact .inl rfl
    | some inner =>
        obtain ⟨more, whole⟩ := exists_prolonged (enters_of_visit entered).listed
        exact .inr ⟨inner, more, rfl, congrArg some whole⟩
  · rw [shape]
    refine ⟨?_, .inl rfl⟩
    have filtered := kept.filter WalkItem.isEntry
    simpa [WalkItem.isEntry] using filtered

/-- The entries that are reported in spite of the faults come in the order in which they come without
them. -/
theorem entries_sublist {frames others : List Frame} (branch : Branch system options root frames)
    (alongside : Alongside frames others) :
    ((toList system options ⟨[], frames⟩).filter WalkItem.isEntry).Sublist
      ((toList system.faultless options ⟨[], others⟩).filter WalkItem.isEntry) := by
  -- The walk with faults leads. What the other one does in the meantime, in a directory whose listing
  -- has broken off here or that is not gone into, only adds to its items.
  induction bound : effort system options frames using Nat.strongRecOn generalizing frames others with
  | ind bound ih =>
      subst bound
      have skip : ∀ extra fewer beside, effort system options fewer < effort system options frames →
          Branch system options root fewer → Alongside fewer beside →
          ((toList system options ⟨[], fewer⟩).filter WalkItem.isEntry).Sublist
            ((toList system.faultless options ⟨[], extra ++ beside⟩).filter WalkItem.isEntry) := by
        intro extra fewer beside less branch alongside
        obtain ⟨items, rest⟩ := exists_toList_append system.faultless options extra beside
        rw [rest, List.filter_append]
        exact (ih _ less branch alongside rfl).trans (List.sublist_append_right _ _)
      cases alongside with
      | nil =>
          rw [toList_ended]
          exact List.nil_sublist _
      | @cons frame outer others more around =>
          cases branch with
          | @cons whole _ names opened later outside =>
              cases names with
              | nil =>
                  have spent : (whole.awaiting []).listing.names = [] := rfl
                  rw [toList_of_nil system options spent, List.filter_append, entries_breakage]
                  exact skip [_] outer others (effort_of_nil system options spent outer) outside around
              | cons name names =>
                  have below : Branch system options root (whole.awaiting (name :: names) :: outer) :=
                    .cons opened later outside
                  have onward := below.awaiting_cons
                  have less := effort_awaiting_cons system options whole name names outer
                  have further : Alongside (whole.awaiting names :: outer)
                      ((whole.awaiting names).prolonged more :: others) := .cons more around
                  obtain ⟨kept, entered⟩ :=
                    visit_sublist present opened (later.subset (List.mem_cons_self ..))
                  rw [Frame.prolonged_awaiting, List.cons_append, toList_awaiting_cons,
                    toList_awaiting_cons, around.locations, visit_prolonged, ← Frame.prolonged_awaiting,
                    List.filter_append, List.filter_append]
                  refine List.Sublist.append kept ?_
                  rcases entered with stays | ⟨inner, others, enters, enteredClean⟩
                  · rw [stays] at onward less ⊢
                    exact skip _ _ _ less onward further
                  · rw [enters] at onward less ⊢
                    rw [enteredClean]
                    exact skip [] _ _ less onward (.cons others further)

omit present in
/-- A root that opens opens without faults too. -/
theorem start_faultless (started : start system options root = .ok walk) :
    ∃ clean, start system.faultless options root = .ok clean ∧ clean.found = walk.found ∧
      Alongside walk.frames clean.frames := by
  have starts := starts_start system options root
  rw [started] at starts
  cases starts with
  | file faulty =>
      have found := FileSystem.status_faultless faulty
      exact ⟨_, (Starts.file found).start_eq, rfl, .nil⟩
  | other faulty directory file =>
      have found := FileSystem.status_faultless faulty
      exact ⟨_, (Starts.other found directory file).start_eq, rfl, .nil⟩
  | shallow faulty shallow =>
      have found := FileSystem.status_faultless faulty
      exact ⟨_, (Starts.shallow found shallow).start_eq, rfl, .nil⟩
  | @opened location entries listing faulty deep listed =>
      have found := FileSystem.status_faultless faulty
      have whole := FileSystem.listAt_faultless (isDir_of_listAt system listed)
      have alongside : ∀ frame : Frame, system.listAt frame.location = .ok frame.listing →
          Alongside [frame] [frame.restored system] := by
        intro frame listed
        obtain ⟨more, same⟩ := exists_prolonged listed
        rw [same]
        exact .cons more .nil
      exact ⟨⟨itemsOf options root false, [Frame.restored system ⟨root, location, 1, listing⟩]⟩,
        (Starts.opened found deep whole).start_eq, rfl, alongside ⟨root, location, 1, listing⟩ listed⟩

end Order

/-- A fault costs what lies at or below a failure that is due to it. -/
theorem faults_cost_subtrees (started : start system options root = .ok walk) :
    ∃ clean, start system.faultless options root = .ok clean ∧
      ((toList system options walk).filter WalkItem.isEntry).Sublist
        ((toList system.faultless options clean).filter WalkItem.isEntry) ∧
      (∀ path kind, .entry path kind ∈ toList system.faultless options clean →
        .entry path kind ∉ toList system options walk →
        ∃ place error, place.Below path ∧ .failure place error ∈ toList system options walk ∧
          .failure place error ∉ toList system.faultless options clean) ∧
      ∀ path error, .failure path error ∈ toList system options walk →
        .failure path error ∉ toList system.faultless options clean →
        ∃ fault ∈ system.faults, fault.cause = error.cause ∧ system.Names path fault.location := by
  obtain ⟨clean, opened, found, alongside⟩ := start_faultless started
  refine ⟨clean, opened, ?_, ?_, ?_⟩
  · have whole : ∀ system walk, toList system options walk =
        walk.found ++ toList system options ⟨[], walk.frames⟩ := fun _ _ => toList_append ..
    rw [whole system walk, whole system.faultless clean, found, List.filter_append, List.filter_append]
    exact (List.Sublist.refl _).append (entries_sublist present (start_eq_ok started).2 alongside)
  · intro path kind walked gone
    rw [mem_toList_iff opened, found] at walked
    rw [mem_toList_iff started, not_or] at gone
    rcases reports_or_loses present started (walked.resolve_left gone.1) with reports | loses
    · exact absurd reports gone.2
    · obtain ⟨place, error, below, reported, extra⟩ := loses
      exact ⟨place, error, below, (failure_mem_toList_iff started).mpr reported,
        mt (failure_mem_toList_iff opened).mp extra⟩
  · intro path error reported extra
    rw [failure_mem_toList_iff started] at reported
    rw [failure_mem_toList_iff opened] at extra
    exact exists_fault_of_reports present reported extra

end PathSearch.Walk
