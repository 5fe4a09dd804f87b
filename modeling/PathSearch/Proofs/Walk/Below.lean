import PathSearch.Proofs.Tree.Resolve
import PathSearch.Walk.Stream

/-! Every entry that a walk reports lies at or below its root, by names that directories can hold. -/

namespace PathSearch

theorem FileSystem.names_prefix_of_listAt {system : FileSystem} {location : Location}
    {listing : FileSystem.Listing} (listed : system.listAt location = .ok listing) :
    listing.names <+: system.tree.children location := by
  unfold FileSystem.listAt at listed
  cases guarded : system.guard .list location with
  | error cause =>
      by_cases directory : system.tree.isDir location = true <;>
        simp [directory, guarded, bind, Except.bind, throw, throwThe, MonadExceptOf.throw] at listed
  | ok _ =>
      by_cases directory : system.tree.isDir location = true
      · simp only [directory, guarded, bind, Except.bind, pure, Except.pure] at listed
        split at listed
        · simp at listed
        · split at listed
          · split at listed <;> cases listed
            · exact List.take_prefix _ _
            · exact List.prefix_refl _
          · cases listed
            exact List.prefix_refl _
      · simp [directory, bind, Except.bind, throw, throwThe, MonadExceptOf.throw] at listed

/-- The path is the root or one reached from it by names of directory entries. -/
def Path.Below (root path : Path) : Prop :=
  path.anchor = root.anchor ∧
    ∃ names, path.names = root.names ++ names ∧ ∀ name ∈ names, IsEntryName name

namespace Path.Below

variable {root path : Path}

theorem refl (root : Path) : root.Below root := ⟨rfl, [], by simp, by simp⟩

theorem append (below : root.Below path) {name : Text} (named : IsEntryName name) :
    root.Below (path ++ Path.ofText name) := by
  obtain ⟨anchors, names, split, entries⟩ := below
  rw [Path.append_ofText_of_isName path named.1]
  refine ⟨anchors, names ++ [name], by simp [Path.child, split], ?_⟩
  intro other member
  rcases List.mem_append.mp member with member | single
  · exact entries other member
  · exact List.mem_singleton.mp single ▸ named

theorem isNormal (below : root.Below path) (normal : root.IsNormal) : path.IsNormal := by
  obtain ⟨anchors, names, split, entries⟩ := below
  refine ⟨?_, ?_⟩
  · rw [Path.IsAbsolute, anchors]
    exact normal.1
  · rw [split]
    intro member
    rcases List.mem_append.mp member with member | member
    · exact normal.2 member
    · exact (entries Path.up member).2.1 rfl

theorem exists_relativeTo? (below : root.Below path) :
    ∃ relative, path.relativeTo? root = some relative := by
  obtain ⟨anchors, names, split, -⟩ := below
  obtain ⟨relative, found, -⟩ := Path.exists_relativeTo? anchors split
  exact ⟨relative, found⟩

end Path.Below

namespace Walk

variable {system : FileSystem} {options : WalkOptions} {root : Path}

/-- The entry, if the item is one, lies below the root. -/
def HoldsItem (root : Path) : WalkItem → Prop
  | .entry path _ => root.Below path
  | .failure _ _ => True

structure HoldsFrame (root : Path) (frame : Frame) : Prop where
  path : root.Below frame.path
  names : ∀ name ∈ frame.listing.names, IsEntryName name

/-- Everything that the walk has found, and every directory it is in, lies below the root. -/
structure Holds (root : Path) (walk : Walk) : Prop where
  found : ∀ item ∈ walk.found, HoldsItem root item
  frames : ∀ frame ∈ walk.frames, HoldsFrame root frame

theorem holdsItem_itemsOf (options : WalkOptions) {path : Path} (below : root.Below path)
    (kind : Bool) : ∀ item ∈ itemsOf options path kind, HoldsItem root item := by
  intro item member
  unfold itemsOf at member
  split at member
  · cases List.mem_singleton.mp member
    exact below
  · simp at member

theorem holdsFrame_of_listAt {path : Path} (below : root.Below path) {location : Location}
    {depth : Nat} {listing : FileSystem.Listing} (listed : system.listAt location = .ok listing) :
    HoldsFrame root ⟨path, location, depth, listing⟩ := by
  refine ⟨below, ?_⟩
  intro name member
  exact Tree.isEntryName_of_mem_children
    ((FileSystem.names_prefix_of_listAt listed).subset member)

theorem holds_enter {inside : List Frame} (frames : ∀ frame ∈ inside, HoldsFrame root frame)
    {path : Path} (below : root.Below path) (depth : Nat) (entryText : Text) (location : Location) :
    Holds root ⟨(enter system options inside path depth entryText location).1,
      (enter system options inside path depth entryText location).2⟩ := by
  have reported := holdsItem_itemsOf options below false
  unfold enter
  split
  · exact ⟨by simp [HoldsItem], frames⟩
  · split
    · exact ⟨by simp [HoldsItem], frames⟩
    · cases listed : system.listAt location with
      | error cause =>
          refine ⟨?_, frames⟩
          intro item member
          rcases List.mem_append.mp member with member | single
          · exact reported item member
          · cases List.mem_singleton.mp single
            trivial
      | ok listing =>
          refine ⟨reported, ?_⟩
          intro frame member
          rcases List.mem_cons.mp member with rfl | member
          · exact holdsFrame_of_listAt below listed
          · exact frames frame member

theorem holds_advance {frame : Frame} {outer : List Frame}
    (frames : ∀ held ∈ frame :: outer, HoldsFrame root held) :
    Holds root ⟨(advance system options frame outer).1, (advance system options frame outer).2⟩ := by
  have outside : ∀ held ∈ outer, HoldsFrame root held := fun held member =>
    frames held (List.mem_cons_of_mem _ member)
  have current := frames frame (List.mem_cons_self ..)
  unfold advance
  cases names : frame.listing.names with
  | nil =>
      simp only
      split
      · exact ⟨by simp, outside⟩
      · exact ⟨by simp [HoldsItem], outside⟩
  | cons name rest =>
      have below : root.Below (frame.path ++ Path.ofText name) :=
        current.path.append (current.names name (by simp [names]))
      have inside : ∀ held ∈ { frame with listing := ⟨rest, frame.listing.failure⟩ } :: outer,
          HoldsFrame root held := by
        intro held member
        rcases List.mem_cons.mp member with rfl | member
        · exact ⟨current.path, fun other later => current.names other (by simp [names, later])⟩
        · exact outside held member
      simp only
      cases system.entryKind options.followLinks frame.path frame.location name with
      | error cause => exact ⟨by simp [HoldsItem], inside⟩
      | ok kind =>
          cases kind with
          | file => exact ⟨holdsItem_itemsOf options below true, inside⟩
          | neither => exact ⟨holdsItem_itemsOf options below false, inside⟩
          | dir location =>
              simp only
              split
              · exact holds_enter inside below _ _ _
              · exact ⟨holdsItem_itemsOf options below false, inside⟩

theorem Holds.next (system : FileSystem) (options : WalkOptions) {walk : Walk}
    (holds : Holds root walk) :
    (∀ item, (next system options walk).1 = some item → HoldsItem root item) ∧
      Holds root (next system options walk).2 := by
  fun_induction Walk.next system options walk with
  | case1 item rest frames =>
      refine ⟨?_, ?_⟩
      · rintro _ ⟨⟩
        exact holds.found item (List.mem_cons_self ..)
      · exact ⟨fun other member => holds.found other (List.mem_cons_of_mem _ member), holds.frames⟩
  | case2 => exact ⟨by simp, holds⟩
  | case3 frame outer step ih => exact ih (holds_advance holds.frames)

theorem Holds.toList {walk : Walk} (holds : Holds root walk) :
    ∀ item ∈ toList system options walk, HoldsItem root item := by
  fun_induction Walk.toList system options walk with
  | case1 => simp
  | case2 walk item rest taken ih =>
      obtain ⟨first, later⟩ := holds.next system options
      rw [taken] at first later
      intro other member
      rcases List.mem_cons.mp member with rfl | member
      · exact first _ rfl
      · exact ih later other member

theorem holds_start {walk : Walk} (started : start system options root = .ok walk) :
    Holds root walk := by
  have reported := holdsItem_itemsOf options (.refl root)
  unfold start at started
  cases status : system.status root with
  | error error => simp [status, bind, Except.bind] at started
  | ok reached =>
      obtain ⟨location, node⟩ := reached
      simp only [status, bind, Except.bind, pure, Except.pure] at started
      split at started
      · split at started
        · cases listed : system.listAt location with
          | error cause =>
              rw [listed] at started
              cases started
          | ok listing =>
              rw [listed] at started
              cases started
              refine ⟨reported false, ?_⟩
              intro frame member
              cases List.mem_singleton.mp member
              exact holdsFrame_of_listAt (.refl root) listed
        · cases started
          exact ⟨reported false, by simp⟩
      · cases started
        exact ⟨reported true, by simp⟩
      · cases started
        exact ⟨reported false, by simp⟩

/-- Every entry of a walk lies at or below the root of the walk. -/
theorem below_of_mem_toList {walk : Walk} (started : start system options root = .ok walk)
    {path : Path} {kind : Bool} (member : .entry path kind ∈ toList system options walk) :
    root.Below path :=
  (holds_start started).toList _ member

end Walk

end PathSearch
