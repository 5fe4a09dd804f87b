import PathSearch.Proofs.Walk.Reports

/-!
A walk by recursion. Of a directory it gives what becomes of every entry, in the order of the listing, and
right behind an entry that is a directory what lies in it; the report of a listing that has broken off comes
last. The walk with its stack reports the same items in the same order.
-/

namespace PathSearch

theorem Tree.nodup_children (tree : Tree) (directory : Location) : (tree.children directory).Nodup := by
  unfold Tree.children
  split
  · rename_i node found
    have proper : node.Proper := Node.Proper.at? tree.proper found
    exact proper.entries.1
  · exact List.nodup_nil

/-- A path lies in one entry of a directory only. -/
theorem Path.Below.eq_of_append {directory path : Path} {name other : Text} (named : IsEntryName name)
    (otherNamed : IsEntryName other) (below : (directory ++ ofText name).Below path)
    (again : (directory ++ ofText other).Below path) : name = other := by
  obtain ⟨-, names, split, -⟩ := below
  obtain ⟨-, others, otherSplit, -⟩ := again
  rw [append_ofText_of_isName directory named.1] at split
  rw [append_ofText_of_isName directory otherNamed.1] at otherSplit
  have same := split.symm.trans otherSplit
  simp only [child, List.append_assoc, List.append_cancel_left_eq, List.singleton_append,
    List.cons.injEq] at same
  exact same.1

namespace Walk

variable {system : FileSystem} {options : WalkOptions} {root path : Path} {walk : Walk}
  {frame inner : Frame} {above : List Location} {name : Text} {item : WalkItem}

theorem Enters.levelsLeft_lt (enters : Enters system options frame above name inner) :
    levelsLeft system options (inner.location :: frame.location :: above) <
      levelsLeft system options (frame.location :: above) := by
  refine Walk.levelsLeft_lt system options (isDir_of_listAt system enters.listed) ?_ ?_
  · exact fun follows => (enters.free follows).2
  · intro stays
    have kind := enters.kind
    rw [stays] at kind
    rw [location_of_entryKind system kind]
    simp

section Recursion

variable (system options)

/-- The items of a directory that lies in directories at the locations `above`. -/
def directoryItems (frame : Frame) (above : List Location) : List WalkItem :=
  (frame.listing.names.flatMap fun name =>
    (visit system options frame above name).1 ++
      match _entered : (visit system options frame above name).2 with
      | none => []
      | some inner => directoryItems inner (frame.location :: above)) ++ frame.breakage
termination_by levelsLeft system options (frame.location :: above)
decreasing_by exact (enters_of_visit _entered).levelsLeft_lt

/-- The items of an entry of a directory: what the entry comes to, and what lies in it. -/
def entryItems (frame : Frame) (above : List Location) (name : Text) : List WalkItem :=
  (visit system options frame above name).1 ++
    match (visit system options frame above name).2 with
    | none => []
    | some inner => directoryItems system options inner (frame.location :: above)

/-- The items of a root, when it can be opened: itself, and what lies in it. -/
def rootItems (root : Path) : Except CallError (List WalkItem) := do
  let (location, node) ← system.status root
  match node with
  | some (.dir _) =>
      if options.descendsBelow 0 then
        let listing ← FileSystem.about root (system.listAt location)
        return itemsOf options root false ++
          directoryItems system options ⟨root, location, 1, listing⟩ []
      else return itemsOf options root false
  | some (.file _) => return itemsOf options root true
  | _ => return itemsOf options root false

theorem directoryItems_eq (frame : Frame) (above : List Location) :
    directoryItems system options frame above =
      frame.listing.names.flatMap (entryItems system options frame above) ++ frame.breakage := by
  rw [directoryItems]
  congr 2
  funext name
  rw [entryItems]
  split
  · rename_i stays
    rw [stays]
  · rename_i entered
    rw [entered]

end Recursion

theorem entryItems_of_none (stays : (visit system options frame above name).2 = none) :
    entryItems system options frame above name = (visit system options frame above name).1 := by
  rw [entryItems, stays, List.append_nil]

theorem entryItems_of_some (entered : (visit system options frame above name).2 = some inner) :
    entryItems system options frame above name = (visit system options frame above name).1 ++
      directoryItems system options inner (frame.location :: above) := by
  rw [entryItems, entered]

/-- The stack takes a directory off by reporting its items, and goes on with what is around it. -/
theorem toList_directory (frame : Frame) (outer : List Frame) :
    toList system options ⟨[], frame :: outer⟩ =
      directoryItems system options frame (outer.map Frame.location) ++
        toList system options ⟨[], outer⟩ := by
  generalize around : outer.map Frame.location = above
  induction frame, above using directoryItems.induct system options
    generalizing outer with
  | case1 frame above ih =>
      subst around
      -- The names to come are taken one at a time, while the directory stays on the stack.
      have later : ∀ names, toList system options ⟨[], frame.awaiting names :: outer⟩ =
          names.flatMap (entryItems system options frame (outer.map Frame.location)) ++
            frame.breakage ++ toList system options ⟨[], outer⟩ := by
        intro names
        induction names with
        | nil => exact toList_of_nil system options rfl outer
        | cons name names others =>
            rw [toList_awaiting_cons, List.flatMap_cons]
            cases entered : (visit system options frame (outer.map Frame.location) name).2 with
            | none =>
                rw [entryItems_of_none entered]
                simp [others]
            | some inner =>
                have within := ih name inner entered (frame.awaiting names :: outer) rfl
                rw [entryItems_of_some entered]
                simp [within, others]
      rw [directoryItems_eq]
      exact later frame.listing.names

theorem toList_bare (items : List WalkItem) : toList system options ⟨items, []⟩ = items := by
  rw [toList_append, toList_ended, List.append_nil]

/-- The stack and the recursion open the same roots, and then give the same items. -/
theorem rootItems_eq (system : FileSystem) (options : WalkOptions) (root : Path) :
    rootItems system options root = (start system options root).map (toList system options) := by
  have starts := starts_start system options root
  generalize start system options root = result at starts
  cases starts with
  | hidden refused => simp [rootItems, refused, bind, Except.bind, Except.map]
  | file found => simp [rootItems, found, bind, Except.bind, pure, Except.pure, Except.map, toList_bare]
  | other found directory file =>
      simp [rootItems, found, bind, Except.bind, pure, Except.pure, Except.map, toList_bare]
  | shallow found shallow =>
      simp [rootItems, found, shallow, bind, Except.bind, pure, Except.pure, Except.map, toList_bare]
  | closed found deep refused =>
      simp only [rootItems, found, deep, refused, bind, Except.bind, if_true]
      rfl
  | @opened location _ listing found deep listed =>
      have answer : FileSystem.about root (system.listAt location) = .ok listing := by rw [listed]; rfl
      simp only [rootItems, found, deep, answer, bind, Except.bind, pure, Except.pure, Except.map, if_true]
      rw [toList_append, toList_directory, toList_ended, List.append_nil]
      rfl

section Entries

/-- The paths of the entries among some items. -/
def entryPaths (items : List WalkItem) : List Path :=
  (items.filter WalkItem.isEntry).map WalkItem.path

theorem mem_entryPaths {items : List WalkItem} :
    path ∈ entryPaths items ↔ ∃ kind, .entry path kind ∈ items := by
  simp only [entryPaths, List.mem_map, List.mem_filter]
  constructor
  · rintro ⟨item, ⟨member, entry⟩, rfl⟩
    cases item with
    | entry path kind => exact ⟨kind, member⟩
    | failure path error => cases entry
  · rintro ⟨kind, member⟩
    exact ⟨_, ⟨member, rfl⟩, rfl⟩

theorem entryPaths_append (first second : List WalkItem) :
    entryPaths (first ++ second) = entryPaths first ++ entryPaths second := by
  simp [entryPaths]

theorem entryPaths_flatMap (names : List Text) (items : Text → List WalkItem) :
    entryPaths (names.flatMap items) = names.flatMap fun name => entryPaths (items name) := by
  simp [entryPaths, List.filter_flatMap, List.map_flatMap]

theorem entryPaths_breakage (frame : Frame) : entryPaths frame.breakage = [] := by
  rw [entryPaths, entries_breakage, List.map_nil]

theorem not_mem_breakage {kind : Bool} : .entry path kind ∉ frame.breakage := by
  intro member
  have held := mem_entryPaths.mpr ⟨kind, member⟩
  rw [entryPaths_breakage] at held
  cases held

/-- What is reported of an entry and of all that lies in it bears its path in front. -/
theorem below_of_mem_entryItems (opened : Opens system options root frame above)
    (member : name ∈ frame.listing.names) {kind : Bool}
    (reported : .entry path kind ∈ entryItems system options frame above name) :
    (frame.path ++ Path.ofText name).Below path := by
  induction frame, above using directoryItems.induct system options
    generalizing name with
  | case1 frame above ih =>
      have own : .entry path kind ∈ (visit system options frame above name).1 →
          (frame.path ++ Path.ofText name).Below path := by
        intro reported
        have place : path = frame.path ++ Path.ofText name := path_of_mem_visit reported
        exact place ▸ .refl _
      cases entered : (visit system options frame above name).2 with
      | none =>
          rw [entryItems_of_none entered] at reported
          exact own reported
      | some inner =>
          have enters := enters_of_visit entered
          rw [entryItems_of_some entered] at reported
          rcases List.mem_append.mp reported with reported | reported
          · exact own reported
          · rw [directoryItems_eq] at reported
            rcases List.mem_append.mp reported with reported | broken
            · obtain ⟨other, held, reported⟩ := List.mem_flatMap.mp reported
              have onward := opened.entry member enters
              have below := ih name inner entered onward held reported
              rw [← enters.path]
              exact ((Path.Below.refl _).append (onward.isEntryName held)).trans below
            · exact absurd broken not_mem_breakage

theorem below_of_mem_directoryItems (opened : Opens system options root frame above) {kind : Bool}
    (reported : .entry path kind ∈ directoryItems system options frame above) :
    ∃ name ∈ frame.listing.names, (frame.path ++ Path.ofText name).Below path := by
  rw [directoryItems_eq] at reported
  rcases List.mem_append.mp reported with reported | broken
  · obtain ⟨name, member, reported⟩ := List.mem_flatMap.mp reported
    exact ⟨name, member, below_of_mem_entryItems opened member reported⟩
  · exact absurd broken not_mem_breakage

/-- What lies in a directory has a longer path than the directory. -/
theorem length_lt_of_mem_directoryItems (opened : Opens system options root frame above) {kind : Bool}
    (reported : .entry path kind ∈ directoryItems system options frame above) :
    frame.path.names.length < path.names.length := by
  obtain ⟨name, member, below⟩ := below_of_mem_directoryItems opened reported
  have longer := Path.length_names_append frame.path (opened.isEntryName member)
  have further := below.length_le
  omega

theorem nodup_listing (opened : Opens system options root frame above) : frame.listing.names.Nodup :=
  (FileSystem.names_prefix_of_listAt opened.listed).sublist.nodup (system.tree.nodup_children _)

theorem nodup_itemsOf (path : Path) (kind : Bool) : (entryPaths (itemsOf options path kind)).Nodup := by
  unfold itemsOf
  split
  · exact List.pairwise_singleton _ _
  · exact List.nodup_nil

/-- An entry itself is reported as an entry once, if at all. -/
theorem nodup_visit (system : FileSystem) (options : WalkOptions) (frame : Frame)
    (above : List Location) (name : Text) :
    (entryPaths (visit system options frame above name).1).Nodup := by
  have visits := visits_visit system options frame above name
  generalize visit system options frame above name = result at visits
  cases visits with
  | unknown => exact List.nodup_nil
  | hidden => exact List.nodup_nil
  | circular => exact List.nodup_nil
  | leaf => exact nodup_itemsOf _ _
  | shallow => exact nodup_itemsOf _ _
  | entered => exact nodup_itemsOf _ _
  | closed =>
      rw [entryPaths_append]
      exact (List.append_nil _).symm ▸ nodup_itemsOf _ _

theorem nodup_directoryItems (opened : Opens system options root frame above) :
    (entryPaths (directoryItems system options frame above)).Nodup := by
  induction frame, above using directoryItems.induct system options with
  | case1 frame above ih =>
      rw [directoryItems_eq, entryPaths_append, entryPaths_breakage, List.append_nil,
        entryPaths_flatMap, List.Nodup, List.pairwise_flatMap]
      constructor
      · intro name member
        have own := nodup_visit system options frame above name
        cases entered : (visit system options frame above name).2 with
        | none =>
            rw [entryItems_of_none entered]
            exact own
        | some inner =>
            have enters := enters_of_visit entered
            have onward := opened.entry member enters
            rw [entryItems_of_some entered, entryPaths_append]
            refine List.nodup_append.mpr ⟨own, ih name inner entered onward, ?_⟩
            intro path first other second same
            obtain ⟨kind, reported⟩ := mem_entryPaths.mp first
            obtain ⟨otherKind, later⟩ := mem_entryPaths.mp second
            have place : path = frame.path ++ Path.ofText name := path_of_mem_visit reported
            have longer := length_lt_of_mem_directoryItems onward later
            rw [enters.path, ← place, same] at longer
            omega
      · refine (nodup_listing opened).imp_of_mem ?_
        intro name other member otherMember different path first place second same
        obtain ⟨kind, reported⟩ := mem_entryPaths.mp first
        obtain ⟨otherKind, later⟩ := mem_entryPaths.mp second
        rw [← same] at later
        exact different (Path.Below.eq_of_append (opened.isEntryName member)
          (opened.isEntryName otherMember) (below_of_mem_entryItems opened member reported)
          (below_of_mem_entryItems opened otherMember later))

theorem nodup_toList (started : start system options root = .ok walk) :
    (entryPaths (toList system options walk)).Nodup := by
  have starts := starts_start system options root
  rw [started] at starts
  cases starts with
  | file => exact (toList_bare _).symm ▸ nodup_itemsOf _ _
  | other => exact (toList_bare _).symm ▸ nodup_itemsOf _ _
  | shallow => exact (toList_bare _).symm ▸ nodup_itemsOf _ _
  | opened found deep listed =>
      have opened := Opens.root found deep listed
      rw [toList_append, toList_directory, toList_ended, List.append_nil, entryPaths_append]
      refine List.nodup_append.mpr ⟨nodup_itemsOf _ _, nodup_directoryItems opened, ?_⟩
      rintro path own _ within rfl
      obtain ⟨kind, reported⟩ := mem_entryPaths.mp own
      obtain ⟨other, later⟩ := mem_entryPaths.mp within
      cases itemsOf_path reported
      exact Nat.lt_irrefl _ (length_lt_of_mem_directoryItems opened later)

end Entries

section Depth

theorem Opens.depth_eq (opened : Opens system options root frame above) :
    frame.depth = above.length + 1 := by
  induction opened with
  | root => rfl
  | entry _ _ enters ih => rw [enters.depth, ih, List.length_cons]

/-- The directories around a directory that is listed are fewer than the depth limit. -/
theorem Opens.descends (opened : Opens system options root frame above) :
    options.descendsBelow above.length = true := by
  cases opened with
  | root _ deep => exact deep
  | entry outer _ enters =>
      rw [List.length_cons, ← outer.depth_eq]
      exact enters.deep

theorem descendsBelow_iff {depth : Nat} :
    options.descendsBelow depth = true ↔ ∀ limit, options.maxDepth = some limit → depth < limit := by
  unfold WalkOptions.descendsBelow
  cases options.maxDepth <;> simp

/-- Every entry lies below the root by no more names than the depth limit allows. -/
theorem length_le_of_mem_toList (started : start system options root = .ok walk) {kind : Bool}
    (reported : .entry path kind ∈ toList system options walk) {limit : Int}
    (limited : options.maxDepth = some limit) :
    path.names.length ≤ root.names.length + limit.toNat := by
  rcases (mem_toList_iff started).mp reported with found | ⟨frame, above, opened, reported⟩
  · obtain ⟨⟨other, same⟩, -⟩ := start_eq_ok started
    rw [same] at found
    cases itemsOf_path found
    exact Nat.le_add_right _ _
  · rcases reported with ⟨name, member, reported⟩ | broken
    · have place : path = frame.path ++ Path.ofText name := path_of_mem_visit reported
      have within := descendsBelow_iff.mp opened.descends limit limited
      rw [place, Path.length_names_append _ (opened.isEntryName member), opened.length_eq]
      omega
    · exact absurd broken not_mem_breakage

end Depth

/-- A walk reports what the recursion gives, in the same order. Its entries lie at or below the root, no
deeper than the limit, and no two of them have the same path. -/
theorem toList_eq_rootItems (started : start system options root = .ok walk) :
    rootItems system options root = .ok (toList system options walk) ∧
      (∀ path kind, .entry path kind ∈ toList system options walk → root.Below path ∧
        ∀ limit, options.maxDepth = some limit →
          path.names.length ≤ root.names.length + limit.toNat) ∧
      (entryPaths (toList system options walk)).Nodup := by
  refine ⟨?_, ?_, ?_⟩
  · rw [rootItems_eq, started]
    rfl
  · intro path kind reported
    exact ⟨below_of_mem_toList started reported, fun limit limited =>
      length_le_of_mem_toList started reported limited⟩
  · exact nodup_toList started

/-- The directory `d` holds a file and a link back to the root, and its listing breaks off behind them; `e`
is a link to `d`. What lies in `d` is reported under both. -/
theorem toList_eq_rootItems_behind_link :
    let tree := ((Tree.empty.add [['d'], ['f']] (.file .empty)).add [['d'], ['l']]
      (.link ['.', '.'])).add [['e']] (.link ['d'])
    let system : FileSystem := ⟨tree, [⟨.iterate 2, [['d']], .inputOutput⟩], .root⟩
    let options : WalkOptions := { maxDepth := some 3, onlyFiles := false }
    let inside (directory : Path) : List WalkItem :=
      [.entry directory false, .entry (directory ++ Path.ofText ['f']) true,
        .failure (directory ++ Path.ofText ['l'])
          ⟨.linkLoop, some (directory ++ Path.ofText ['l']).text⟩,
        .failure directory ⟨.inputOutput, some directory.text⟩]
    ∃ walk, start system options .root = .ok walk ∧
      toList system options walk = .entry .root false :: inside (Path.root ++ Path.ofText ['d']) ++
        inside (Path.root ++ Path.ofText ['e']) ∧
      (entryPaths (toList system options walk)).Nodup := by
  intro tree system options inside
  have started : start system options .root =
      .ok ⟨[.entry .root false], [⟨.root, [], 1, ⟨[['d'], ['e']], none⟩⟩]⟩ := rfl
  have given : rootItems system options .root =
      .ok (.entry .root false :: inside (Path.root ++ Path.ofText ['d']) ++
        inside (Path.root ++ Path.ofText ['e'])) :=
    eq_ok_of_toOption (by decide +kernel)
  obtain ⟨whole, -, distinct⟩ := toList_eq_rootItems started
  exact ⟨_, started, Except.ok.inj (whole.symm.trans given), distinct⟩

/-- With a limit below zero the root is reported all the same. -/
theorem not_length_le_limit :
    let system : FileSystem := ⟨Tree.empty.add [['f']] (.file .empty), [], .root⟩
    let root := Path.root ++ Path.ofText ['f']
    ∃ walk, start system { maxDepth := some (-1) } root = .ok walk ∧
      ¬ ∀ path kind, .entry path kind ∈ toList system { maxDepth := some (-1) } walk →
        (path.names.length : Int) ≤ root.names.length + -1 := by
  intro system root
  have started : start system { maxDepth := some (-1) } root = .ok ⟨[.entry root true], []⟩ := rfl
  refine ⟨_, started, fun within => ?_⟩
  have reported : .entry root true ∈
      toList system { maxDepth := some (-1) } ⟨[.entry root true], []⟩ := by
    rw [toList_bare]
    exact List.mem_singleton.mpr rfl
  have short := within root true reported
  omega

end Walk

end PathSearch
