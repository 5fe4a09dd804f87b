import PathSearch.Proofs.Walk.Reports

/-!
Links that lead back into a directory around them. A walk that follows links is never in a directory
twice, and reports such a link instead of following it.
-/

namespace PathSearch

namespace FileSystem

variable {system : FileSystem} {location : Location} {cause : FileCause}

theorem followNames_ne_linkLoop {follow : Location → Text → List Text → Except FileCause Location}
    (further : ∀ place target rest, follow place target rest ≠ .error .linkLoop)
    (start : Location) (names : List Text) :
    system.followNames follow start names ≠ .error .linkLoop := by
  induction names generalizing start with
  | nil => simp [followNames]
  | cons name rest ih =>
      unfold followNames
      split
      · split
        · exact ih _
        · split
          · simp
          · exact further _ _ _
          · exact ih _
      · simp

theorem followWithin_ne_linkLoop (links : Nat) (start : Location) (names : List Text) :
    system.followWithin links start names ≠ .error .linkLoop := by
  induction links generalizing start names with
  | zero => exact followNames_ne_linkLoop (by simp) start names
  | succ links ih =>
      refine followNames_ne_linkLoop ?_ start names
      intro place target rest looped
      rcases bind_eq_error.mp looped with failed | ⟨reached, -, arrived⟩
      · exact ih _ _ failed
      · split at arrived <;> cases arrived

/-- No fault looks like a loop of directories, which only a walk can see. -/
def LoopsUnfeigned (system : FileSystem) : Prop :=
  ∀ fault ∈ system.faults, fault.cause ≠ .linkLoop

variable (unfeigned : system.LoopsUnfeigned)

include unfeigned

theorem guard_ne_linkLoop (kind : FaultKind) (location : Location) :
    system.guard kind location ≠ .error .linkLoop := by
  intro refused
  obtain ⟨fault, member, same, -⟩ := exists_fault_of_guard refused
  exact unfeigned fault member same

theorem entryKind_ne_linkLoop (follow : Bool) (directory : Path) (base : Location) (name : Text) :
    system.entryKind follow directory base name ≠ .error .linkLoop := by
  have inspects := inspects_entryKind system follow directory base name
  generalize system.entryKind follow directory base name = result at inspects ⊢
  cases inspects with
  | refused refused =>
      rintro ⟨⟩
      exact guard_ne_linkLoop unfeigned _ _ refused
  | astray _ _ _ unresolved =>
      split
      · simp
      · rintro ⟨⟩
        exact followWithin_ne_linkLoop _ _ _ unresolved
  | hidden _ _ _ _ refused =>
      split
      · simp
      · rintro ⟨⟩
        exact guard_ne_linkLoop unfeigned _ _ refused
  | _ => simp

theorem listAt_ne_linkLoop (location : Location) : system.listAt location ≠ .error .linkLoop := by
  have lists := lists_listAt system location
  generalize system.listAt location = result at lists ⊢
  cases lists with
  | refused _ refused =>
      rintro ⟨⟩
      exact guard_ne_linkLoop unfeigned _ _ refused
  | _ => simp

theorem failure_ne_linkLoop {listing : Listing} (listed : system.listAt location = .ok listing) :
    listing.failure ≠ some .linkLoop := by
  have lists := lists_listAt system location
  rw [listed] at lists
  cases lists with
  | whole => simp
  | broken _ _ breaks =>
      rintro ⟨⟩
      obtain ⟨fault, member, same, -⟩ := exists_fault_of_iterationFault? breaks
      exact unfeigned fault member same

end FileSystem

namespace Walk

variable {system : FileSystem} {options : WalkOptions} {root path : Path} {walk : Walk}
  {frame : Frame} {above : List Location} {name : Text} {file : Option Text}

theorem Opens.nodup (follows : options.followLinks = true)
    (opened : Opens system options root frame above) : (frame.location :: above).Nodup := by
  induction opened with
  | root => simp
  | entry outer member enters ih => exact List.nodup_cons.mpr ⟨(enters.free follows).2, ih⟩

/-- The directories that a walk is in at one time are all different. -/
theorem Branch.nodup (follows : options.followLinks = true) {frames : List Frame}
    (branch : Branch system options root frames) : (frames.map Frame.location).Nodup := by
  cases branch with
  | nil => simp
  | cons opened later around =>
      have distinct := opened.nodup follows
      exact distinct

/-- The entry of the directory closes a loop: the walk would go into it, can read it, and its path leads
to a directory that a path between the root and that entry leads to already. -/
def ClosesLoop (system : FileSystem) (options : WalkOptions) (root : Path) (frame : Frame)
    (name : Text) : Prop :=
  options.followLinks = true ∧ options.descendsBelow frame.depth = true ∧
    system.guard .entryKind (frame.location ++ [name]) = .ok () ∧
    ∃ target, system.resolve (frame.path ++ Path.ofText name) = .ok target ∧
      system.tree.isDir target = true ∧ system.guard .status target = .ok () ∧
      ∃ around, root.Below around ∧ around.Below frame.path ∧ system.resolve around = .ok target

theorem loop_mem_visit_iff (unfeigned : system.LoopsUnfeigned)
    (opened : Opens system options root frame above) (member : name ∈ frame.listing.names) :
    .failure path ⟨.linkLoop, file⟩ ∈ (visit system options frame above name).1 ↔
      (path = frame.path ++ Path.ofText name ∧ file = some path.text) ∧
        ClosesLoop system options root frame name := by
  have listed := opened.mem_children member
  have named := opened.isEntryName member
  constructor
  · intro reported
    have visits := visits_visit system options frame above name
    generalize visit system options frame above name = result at visits reported
    cases visits with
    | circular kind deep follows shown inside =>
        cases List.mem_singleton.mp reported
        refine ⟨⟨rfl, rfl⟩, follows, deep, ?_⟩
        rw [follows] at kind
        obtain ⟨allowed, reached, held, -⟩ :=
          (FileSystem.entryKind_eq_dir_iff opened.resolved opened.inside named listed).mp ⟨kind, shown⟩
        exact ⟨allowed, _, reached, held, shown, opened.mem_iff_exists_above.mp inside⟩
    | unknown unknown =>
        cases List.mem_singleton.mp reported
        exact absurd unknown (FileSystem.entryKind_ne_linkLoop unfeigned _ _ _ _)
    | hidden _ _ _ refused =>
        cases List.mem_singleton.mp reported
        exact absurd refused (FileSystem.guard_ne_linkLoop unfeigned _ _)
    | closed _ _ _ refused =>
        rcases List.mem_append.mp reported with reported | reported
        · cases itemsOf_path reported
        · cases List.mem_singleton.mp reported
          exact absurd refused (FileSystem.listAt_ne_linkLoop unfeigned _)
    | leaf => cases itemsOf_path reported
    | shallow => cases itemsOf_path reported
    | entered => cases itemsOf_path reported
  · rintro ⟨⟨rfl, rfl⟩, follows, deep, allowed, target, reached, held, shown, around⟩
    have inside : target ∈ frame.location :: above := opened.mem_iff_exists_above.mpr around
    obtain ⟨kind, -⟩ :=
      (FileSystem.entryKind_eq_dir_iff opened.resolved opened.inside named listed).mpr
        ⟨allowed, reached, held, shown⟩
    rw [← follows] at kind
    rw [(Visits.circular kind deep follows shown inside).visit_eq]
    exact List.mem_singleton.mpr rfl

theorem loop_mem_toList_iff (unfeigned : system.LoopsUnfeigned)
    (started : start system options root = .ok walk) :
    .failure path ⟨.linkLoop, file⟩ ∈ toList system options walk ↔
      file = some path.text ∧ ∃ frame above name, Opens system options root frame above ∧
        name ∈ frame.listing.names ∧ path = frame.path ++ Path.ofText name ∧
        ClosesLoop system options root frame name := by
  rw [failure_mem_toList_iff started]
  constructor
  · rintro ⟨frame, above, opened, ⟨name, member, reported⟩ | reported⟩
    · obtain ⟨⟨place, text⟩, closes⟩ := (loop_mem_visit_iff unfeigned opened member).mp reported
      exact ⟨text, frame, above, name, opened, member, place, closes⟩
    · have unfailed := FileSystem.failure_ne_linkLoop unfeigned opened.listed
      unfold Frame.breakage at reported
      split at reported
      · cases reported
      · rename_i failed
        cases List.mem_singleton.mp reported
        exact absurd failed unfailed
  · rintro ⟨text, frame, above, name, opened, member, place, closes⟩
    exact ⟨frame, above, opened, .inl ⟨name, member,
      (loop_mem_visit_iff unfeigned opened member).mpr ⟨⟨place, text⟩, closes⟩⟩⟩

/-- Whatever links there are, a walk comes to an end. When it follows links it is in no directory twice
at any time, and it reports a loop for just those entries that lead back to a directory on their own
path. -/
theorem ends_and_reports_loops (unfeigned : system.LoopsUnfeigned)
    (started : start system options root = .ok walk) :
    (∀ items count state, Runs system options walk items count state →
      count ≤ size system options walk ∧
        (state = ⟨[], []⟩ ∧ items = toList system options walk ∨
          ∃ more after, Steps system options state more after) ∧
        (options.followLinks = true → (state.frames.map Frame.location).Nodup)) ∧
      (∀ path file, .failure path ⟨.linkLoop, file⟩ ∈ toList system options walk ↔
        file = some path.text ∧ ∃ frame above name, Opens system options root frame above ∧
          name ∈ frame.listing.names ∧ path = frame.path ++ Path.ofText name ∧
          ClosesLoop system options root frame name) ∧
      ∀ path file target, system.resolve path = .ok target →
        (∀ around, root.Below around → around.Below path → around ≠ path →
          system.resolve around ≠ .ok target) →
        .failure path ⟨.linkLoop, file⟩ ∉ toList system options walk := by
  refine ⟨?_, fun path file => loop_mem_toList_iff unfeigned started, ?_⟩
  · intro items count state runs
    obtain ⟨bound, onward⟩ := runs.bounded
    exact ⟨bound, onward, fun follows => (runs.branch (start_eq_ok started).2).nodup follows⟩
  · intro path file target leads apart reported
    obtain ⟨-, frame, above, name, opened, member, rfl, -, -, -, other, reached, -, -, around, below,
      inside, back⟩ := (loop_mem_toList_iff unfeigned started).mp reported
    have named := opened.isEntryName member
    have longer := Path.length_names_append frame.path named
    cases leads.symm.trans reached
    refine apart around below (inside.append named) ?_ back
    rintro rfl
    have shorter := inside.length_le
    omega

/-- The directory `d` holds a link back to the root, which is reported where it lies; the link `e` leads
to `d` from beside it, and is followed. -/
theorem loop_through_the_root :
    let tree := (Tree.empty.add [['d'], ['l']] (.link ['.', '.'])).add [['e']] (.link ['d'])
    let system : FileSystem := ⟨tree, [], .root⟩
    let directory := Path.root ++ Path.ofText ['d']
    let link := directory ++ Path.ofText ['l']
    ∃ walk, system.LoopsUnfeigned ∧ start system {} .root = .ok walk ∧
      .failure link ⟨.linkLoop, some link.text⟩ ∈ toList system {} walk ∧
      ∀ file, .failure (Path.root ++ Path.ofText ['e']) ⟨.linkLoop, file⟩ ∉ toList system {} walk := by
  intro tree system directory link
  have unfeigned : system.LoopsUnfeigned := by simp [FileSystem.LoopsUnfeigned, system]
  have started : start system {} .root =
      .ok ⟨[], [⟨.root, [], 1, ⟨[['d'], ['e']], none⟩⟩]⟩ := rfl
  have around : Opens system {} .root ⟨.root, [], 1, ⟨[['d'], ['e']], none⟩⟩ [] :=
    .root rfl rfl rfl
  have inside : Opens system {} .root ⟨directory, [['d']], 2, ⟨[['l']], none⟩⟩ [[]] :=
    around.entry (List.mem_cons_self ..)
      ⟨rfl, rfl, rfl, rfl, fun _ => ⟨rfl, by decide⟩, rfl⟩
  have back : ClosesLoop system {} .root ⟨directory, [['d']], 2, ⟨[['l']], none⟩⟩ ['l'] :=
    ⟨rfl, rfl, rfl, [], rfl, rfl, rfl, .root, .refl _, inside.below_root, rfl⟩
  obtain ⟨-, reported, apart⟩ := ends_and_reports_loops unfeigned started
  refine ⟨_, unfeigned, started, ?_, ?_⟩
  · exact (reported _ _).mpr ⟨rfl, _, _, _, inside, List.mem_singleton.mpr rfl, rfl, back⟩
  · intro file
    refine apart _ file [['d']] rfl ?_
    intro path below above other leads
    have named : IsEntryName ['e'] := by decide
    have onRoot := ((Path.below_append_iff named).mp above).resolve_left other
    obtain rfl := below.eq_of_length_le onRoot.length_le
    cases leads

end Walk

end PathSearch
