import PathSearch.Walk.Basic

namespace PathSearch.Walk

/-!
The walk as a stream. Every step either takes a name from the innermost listing, closes it, or opens a
directory that the walk is not in yet; `effort` bounds the steps that remain, so asking for the next
item always comes to an end.
-/

variable (system : FileSystem) (options : WalkOptions)

/-- How much deeper the walk can still go: no directory is entered twice on one branch when links are
followed, and otherwise locations only grow longer. -/
def room : List Frame → Nat
  | [] => 0
  | frame :: outer =>
      if options.followLinks then
        (system.tree.directories.filter fun location =>
          location ∉ (frame :: outer).map Frame.location).length
      else system.tree.size - frame.location.length

/-- How much deeper a walk can still go from the first of these locations, the directories around it
being at the others. -/
def levelsLeft : List Location → Nat
  | [] => 0
  | location :: above =>
      if options.followLinks then
        (system.tree.directories.filter fun other => other ∉ location :: above).length
      else system.tree.size - location.length

theorem room_eq_levelsLeft (frames : List Frame) :
    room system options frames = levelsLeft system options (frames.map Frame.location) := by
  cases frames <;> rfl

/-- A bound on the steps spent in a directory with at most `width` names, so many levels deep. -/
def levelEffort (width : Nat) : Nat → Nat
  | 0 => 0
  | levels + 1 => width * (1 + levelEffort width levels) + 1

/-- A bound on the steps that frames still take. -/
def effort : List Frame → Nat
  | [] => 0
  | frame :: outer =>
      frame.listing.names.length *
          (1 + levelEffort system.tree.size (room system options (frame :: outer))) +
        1 + effort outer

theorem levelEffort_mono (width : Nat) {few many : Nat} (ordered : few ≤ many) :
    levelEffort width few ≤ levelEffort width many := by
  induction few generalizing many with
  | zero => simp [levelEffort]
  | succ few ih =>
      cases many with
      | zero => omega
      | succ many =>
          have smaller := ih (Nat.le_of_succ_le_succ ordered)
          simp only [levelEffort]
          exact Nat.add_le_add_right (Nat.mul_le_mul_left width (by omega)) 1

theorem isDir_of_listAt {location : Location} {listing : FileSystem.Listing}
    (listed : system.listAt location = .ok listing) : system.tree.isDir location = true := by
  unfold FileSystem.listAt at listed
  by_cases directory : system.tree.isDir location = true
  · exact directory
  · simp [directory, bind, Except.bind, throw, throwThe, MonadExceptOf.throw] at listed

theorem names_length_of_listAt {location : Location} {listing : FileSystem.Listing}
    (listed : system.listAt location = .ok listing) :
    listing.names.length ≤ system.tree.size := by
  have bound := system.tree.children_length_le location
  unfold FileSystem.listAt at listed
  cases guarded : system.guard .list location with
  | error cause =>
      by_cases directory : system.tree.isDir location = true <;>
        simp [directory, guarded, bind, Except.bind, throw, throwThe, MonadExceptOf.throw] at listed
  | ok _ =>
      by_cases directory : system.tree.isDir location = true
      · simp only [directory, guarded, bind, Except.bind, pure, Except.pure] at listed
        split at listed
        · simp at listed
        · split at listed
          · split at listed <;> cases listed
            · simp
              omega
            · exact bound
          · cases listed
            exact bound
      · simp [directory, bind, Except.bind, throw, throwThe, MonadExceptOf.throw] at listed

theorem location_of_entryKind {path : Path} {location entered : Location} {name : Text}
    (kind : system.entryKind false path location name = .ok (.dir entered)) :
    entered = location ++ [name] := by
  unfold FileSystem.entryKind at kind
  cases guarded : system.guard .entryKind (location ++ [name]) with
  | error cause => simp [guarded, bind, Except.bind] at kind
  | ok _ =>
      simp only [guarded, bind, Except.bind, pure, Except.pure] at kind
      unfold FileSystem.kindAt at kind
      split at kind
      · simp at kind
      · split at kind
        · simp only [Except.ok.injEq, FileSystem.EntryKind.dir.injEq] at kind
          exact kind.symm
        · simp at kind
        · simp at kind

theorem itemsOf_length_le (path : Path) (isRegularFile : Bool) :
    (itemsOf options path isRegularFile).length ≤ 1 := by
  unfold itemsOf
  split <;> simp

theorem levelsLeft_lt {location inner : Location} {above : List Location}
    (directory : system.tree.isDir inner = true)
    (free : options.followLinks = true → inner ∉ location :: above)
    (below : options.followLinks = false → inner.length = location.length + 1) :
    levelsLeft system options (inner :: location :: above) <
      levelsLeft system options (location :: above) := by
  by_cases follows : options.followLinks = true
  · have outside := free follows
    simp only [levelsLeft, follows, if_true]
    refine Location.length_filter_lt ?_ (Tree.mem_directories directory) ?_ ?_
    · intro other _ free
      simp only [List.mem_cons, not_or, decide_eq_true_eq] at free ⊢
      exact free.2
    · simpa using outside
    · simp
  · have noLinks : options.followLinks = false := by simpa using follows
    have length := below noLinks
    have found : inner.length ≤ system.tree.size := by
      unfold Tree.isDir at directory
      split at directory
      · rename_i held
        exact Tree.length_le_size held
      · simp at directory
    simp only [levelsLeft, noLinks, Bool.false_eq_true, if_false]
    omega

/-- Entering a directory costs no more than one name of the innermost frame. -/
theorem effort_enter (frame : Frame) (outer : List Frame) (path : Path) (depth : Nat)
    (entryText : Text) (location : Location)
    (below : options.followLinks = false → location.length = frame.location.length + 1) :
    effort system options
        (enter system options (frame :: outer) path depth entryText location).2 ≤
      effort system options (frame :: outer) +
        levelEffort system.tree.size (room system options (frame :: outer)) := by
  unfold enter
  split
  · exact Nat.le_add_right _ _
  · split
    · exact Nat.le_add_right _ _
    · rename_i notInside
      cases listed : system.listAt location with
      | error cause => exact Nat.le_add_right _ _
      | ok listing =>
          have width := names_length_of_listAt system listed
          have directory := isDir_of_listAt system listed
          have deeper : room system options (⟨path, location, depth + 1, listing⟩ :: frame :: outer) <
              room system options (frame :: outer) := by
            rw [room_eq_levelsLeft, room_eq_levelsLeft]
            refine levelsLeft_lt system options directory ?_ below
            intro follows
            simpa [follows] using notInside
          obtain ⟨levels, levelsEq⟩ : ∃ levels, room system options (frame :: outer) = levels + 1 :=
            Nat.exists_eq_add_one_of_ne_zero (by omega)
          have smaller := levelEffort_mono system.tree.size
            (show room system options (⟨path, location, depth + 1, listing⟩ :: frame :: outer) ≤ levels
              by omega)
          have whole := Nat.mul_le_mul width (Nat.add_le_add_left smaller 1)
          rw [levelsEq]
          simp only [effort, levelEffort] at whole ⊢
          omega

theorem effort_advance (frame : Frame) (outer : List Frame) :
    effort system options (advance system options frame outer).2 <
      effort system options (frame :: outer) := by
  unfold advance
  cases names : frame.listing.names with
  | nil =>
      simp only
      split <;> (simp only [effort]; omega)
  | cons name rest =>
      have spent : effort system options
            ({ frame with listing := ⟨rest, frame.listing.failure⟩ } :: outer) + 1 +
            levelEffort system.tree.size (room system options (frame :: outer)) =
          effort system options (frame :: outer) := by
        simp only [effort, room, names, List.length_cons, List.map_cons]
        rw [Nat.succ_mul]
        omega
      simp only
      cases kind : system.entryKind options.followLinks frame.path frame.location name with
      | error cause => simp only; omega
      | ok kindOf =>
          cases kindOf with
          | file => simp only; omega
          | neither => simp only; omega
          | dir location =>
              simp only
              split
              · have bound := effort_enter system options
                  { frame with listing := ⟨rest, frame.listing.failure⟩ } outer
                  (frame.path ++ Path.ofText name) frame.depth
                  (FileSystem.entryText frame.path name) location (by
                    intro noLinks
                    rw [noLinks] at kind
                    rw [location_of_entryKind system kind]
                    simp)
                have same : room system options
                    ({ frame with listing := ⟨rest, frame.listing.failure⟩ } :: outer) =
                    room system options (frame :: outer) := by simp [room]
                rw [same] at bound
                omega
              · simp only
                omega

theorem enter_length_le (inside : List Frame) (path : Path) (depth : Nat) (entryText : Text)
    (location : Location) :
    (enter system options inside path depth entryText location).1.length ≤ 2 := by
  have one := itemsOf_length_le options path false
  unfold enter
  split
  · simp
  · split
    · simp
    · split <;> simp <;> omega

theorem advance_length_le (frame : Frame) (outer : List Frame) :
    (advance system options frame outer).1.length ≤ 2 := by
  unfold advance
  split
  · split <;> simp
  · rename_i name names _
    have file := itemsOf_length_le options (frame.path ++ Path.ofText name) true
    have other := itemsOf_length_le options (frame.path ++ Path.ofText name) false
    simp only
    split
    · simp
    · simp only
      omega
    · simp only
      omega
    · split
      · exact enter_length_le system options _ _ _ _ _
      · simp only
        omega

/-- A bound on the work left in a walk, its unreported items included. -/
def size (walk : Walk) : Nat := walk.found.length + 3 * effort system options walk.frames

/-- The next item, if there is one, and the walk after it. -/
def next : Walk → Option WalkItem × Walk
  | ⟨item :: rest, frames⟩ => (some item, ⟨rest, frames⟩)
  | ⟨[], []⟩ => (none, ⟨[], []⟩)
  | ⟨[], frame :: outer⟩ =>
      let step := advance system options frame outer
      next ⟨step.1, step.2⟩
termination_by walk => size system options walk
decreasing_by
  have less := effort_advance system options frame outer
  have few := advance_length_le system options frame outer
  simp only [size, List.length_nil]
  omega

theorem size_next_lt {walk : Walk} {item : WalkItem} {rest : Walk}
    (taken : next system options walk = (some item, rest)) :
    size system options rest < size system options walk := by
  fun_induction next system options walk with
  | case1 first others frames =>
      simp only [Prod.mk.injEq] at taken
      obtain ⟨-, rfl⟩ := taken
      simp [size]
  | case2 => simp at taken
  | case3 frame outer step ih =>
      have less := effort_advance system options frame outer
      have few := advance_length_le system options frame outer
      have later := ih taken
      simp only [size, List.length_nil, step] at later ⊢
      omega

/-- The items that are still to come. -/
def toList (walk : Walk) : List WalkItem :=
  match _taken : next system options walk with
  | (none, _) => []
  | (some item, rest) => item :: toList rest
termination_by size system options walk
decreasing_by exact size_next_lt system options _taken

end PathSearch.Walk
