import PathSearch.Proofs.Walk.Opens

/-!
The directories that a walk is in, whatever has been done with it: the root, and then each one an entry of
the one around it.
-/

namespace PathSearch

/-- The names still to come are names of entries of the directory. -/
def Frame.Lists (system : FileSystem) (frame : Frame) : Prop :=
  ∀ name ∈ frame.listing.names, name ∈ system.tree.children frame.location

theorem Frame.lists_of_listAt {system : FileSystem} {frame : Frame}
    (listed : system.listAt frame.location = .ok frame.listing) : frame.Lists system :=
  (FileSystem.names_prefix_of_listAt listed).subset

namespace Walk

/-- What can be done with a walk. Leaving the block that it was opened for closes it. -/
inductive Operation where
  | next
  | close
  | exit
  deriving DecidableEq

section Operations

variable (system : FileSystem) (options : WalkOptions)

/-- The answer to an operation, an item if there is one, and the walk after it. -/
def perform : Operation → Walk → Option WalkItem × Walk
  | .next, walk => next system options walk
  | .close, walk | .exit, walk => (none, walk.close)

def performAll (operations : List Operation) (walk : Walk) : Walk :=
  operations.foldl (fun walk operation => (perform system options operation walk).2) walk

/-- One of the operations ends the walk: it is closed, or asked for an item when there is none left. -/
def EndedBy (operations : List Operation) (walk : Walk) : Prop :=
  ∃ before operation after, operations = before ++ operation :: after ∧
    (operation ≠ .next ∨ (next system options (performAll system options before walk)).1 = none)

variable {system options}

theorem next_ended : next system options ⟨[], []⟩ = (none, ⟨[], []⟩) := by
  rw [next]

theorem next_eq_none {walk : Walk} (spent : (next system options walk).1 = none) :
    next system options walk = (none, ⟨[], []⟩) := by
  fun_induction next system options walk with
  | case1 => cases spent
  | case2 => rfl
  | case3 _ _ _ ih => exact ih spent

theorem perform_ended (operation : Operation) :
    perform system options operation ⟨[], []⟩ = (none, ⟨[], []⟩) := by
  cases operation with
  | next => exact next_ended
  | close => rfl
  | exit => rfl

theorem performAll_ended (operations : List Operation) :
    performAll system options operations ⟨[], []⟩ = ⟨[], []⟩ := by
  induction operations with
  | nil => rfl
  | cons operation operations ih =>
      rw [performAll, List.foldl_cons, perform_ended]
      exact ih

theorem EndedBy.performAll_eq {operations : List Operation} {walk : Walk}
    (ended : EndedBy system options operations walk) :
    performAll system options operations walk = ⟨[], []⟩ := by
  obtain ⟨before, operation, after, rfl, last⟩ := ended
  have spent : (perform system options operation (performAll system options before walk)).2 =
      ⟨[], []⟩ := by
    cases operation with
    | next => exact congrArg Prod.snd (next_eq_none (last.resolve_left (by simp)))
    | close => rfl
    | exit => rfl
  rw [performAll, List.foldl_append, List.foldl_cons]
  change performAll system options after
    (perform system options operation (performAll system options before walk)).2 = _
  rw [spent, performAll_ended]

end Operations

variable {system : FileSystem} {options : WalkOptions} {root : Path} {frame inner : Frame}
  {outer : List Frame}

/-- Directories one in the other, innermost first: the last of them is the root, and every other one is
an entry of the one after it, by a link if links are followed. -/
inductive Nested (system : FileSystem) (options : WalkOptions) (root : Path) : List Frame → Prop where
  | none : Nested system options root []
  | root {frame : Frame} {entries : Entries} (path : frame.path = root)
      (found : system.status root = .ok (frame.location, some (.dir entries))) :
      Nested system options root [frame]
  | entry {inner frame : Frame} {outer : List Frame} {name : Text}
      (nested : Nested system options root (frame :: outer))
      (member : name ∈ system.tree.children frame.location)
      (path : inner.path = frame.path ++ Path.ofText name)
      (kind : system.entryKind options.followLinks frame.path frame.location name =
        .ok (.dir inner.location)) : Nested system options root (inner :: frame :: outer)

namespace Nested

theorem left (nested : Nested system options root (frame :: outer)) :
    Nested system options root outer := by
  cases nested with
  | root => exact .none
  | entry nested => exact nested

theorem awaiting (nested : Nested system options root (frame :: outer)) (names : List Text) :
    Nested system options root (frame.awaiting names :: outer) := by
  cases nested with
  | root path found => exact .root path found
  | entry nested member path kind => exact .entry nested member path kind

end Nested

/-- The directories that the walk is in lie in one another, and list what is in them. -/
structure InTree (system : FileSystem) (options : WalkOptions) (root : Path) (walk : Walk) : Prop where
  nested : Nested system options root walk.frames
  lists : ∀ frame ∈ walk.frames, frame.Lists system

theorem inTree_ended : InTree system options root ⟨[], []⟩ := ⟨.none, by simp⟩

theorem inTree_start {walk : Walk} (started : start system options root = .ok walk) :
    InTree system options root walk := by
  have starts := starts_start system options root
  rw [started] at starts
  cases starts with
  | opened found _ listed =>
      refine ⟨.root rfl found, ?_⟩
      intro frame member
      cases List.mem_singleton.mp member
      exact Frame.lists_of_listAt listed
  | _ => exact ⟨.none, by simp⟩

/-- The root is a directory, and the depth limit lets the walk list it. -/
def ListsRoot (system : FileSystem) (options : WalkOptions) (root : Path) : Prop :=
  options.descendsBelow 0 = true ∧
    ∃ location entries, system.status root = .ok (location, some (.dir entries))

theorem openPaths_start {walk : Walk} (started : start system options root = .ok walk) :
    (ListsRoot system options root → walk.openPaths = [root]) ∧
      (¬ ListsRoot system options root → walk.openPaths = []) := by
  have starts := starts_start system options root
  rw [started] at starts
  cases starts with
  | file found =>
      refine ⟨?_, fun _ => rfl⟩
      rintro ⟨-, _, _, directory⟩
      cases found.symm.trans directory
  | other found notDirectory =>
      refine ⟨?_, fun _ => rfl⟩
      rintro ⟨-, _, entries, directory⟩
      cases found.symm.trans directory
      exact absurd rfl (notDirectory entries)
  | shallow _ shallow =>
      refine ⟨?_, fun _ => rfl⟩
      rintro ⟨deep, -⟩
      simp [deep] at shallow
  | opened found deep => exact ⟨fun _ => rfl, fun absent => absurd ⟨deep, _, _, found⟩ absent⟩

theorem inTree_advance {found : List WalkItem}
    (inTree : InTree system options root ⟨found, frame :: outer⟩) :
    InTree system options root
      ⟨(advance system options frame outer).1, (advance system options frame outer).2⟩ := by
  obtain ⟨nested, lists⟩ := inTree
  obtain ⟨current, others⟩ := List.forall_mem_cons.mp lists
  cases names : frame.listing.names with
  | nil =>
      rw [advance_of_nil system options names]
      exact ⟨nested.left, others⟩
  | cons name rest =>
      rw [advance_of_cons system options names]
      have around := nested.awaiting rest
      have remaining : (frame.awaiting rest).Lists system :=
        fun other member => current other (by rw [names]; exact List.mem_cons_of_mem _ member)
      cases entered : (visit system options frame (outer.map Frame.location) name).2 with
      | none => exact ⟨around, List.forall_mem_cons.mpr ⟨remaining, others⟩⟩
      | some inner =>
          have enters := enters_of_visit entered
          have held : name ∈ system.tree.children (frame.awaiting rest).location :=
            current name (by simp [names])
          exact ⟨around.entry held enters.path enters.kind,
            List.forall_mem_cons.mpr ⟨Frame.lists_of_listAt enters.listed,
              List.forall_mem_cons.mpr ⟨remaining, others⟩⟩⟩

namespace InTree

theorem next {walk : Walk} (inTree : InTree system options root walk) :
    InTree system options root (Walk.next system options walk).2 := by
  fun_induction Walk.next system options walk with
  | case1 => exact ⟨inTree.nested, inTree.lists⟩
  | case2 => exact inTree
  | case3 _ _ _ ih => exact ih (inTree_advance inTree)

theorem perform {walk : Walk} (inTree : InTree system options root walk) (operation : Operation) :
    InTree system options root (Walk.perform system options operation walk).2 := by
  cases operation with
  | next => exact inTree.next
  | close => exact inTree_ended
  | exit => exact inTree_ended

theorem performAll {walk : Walk} (inTree : InTree system options root walk)
    (operations : List Operation) :
    InTree system options root (Walk.performAll system options operations walk) := by
  induction operations generalizing walk with
  | nil => exact inTree
  | cons operation operations ih => exact ih (inTree.perform operation)

end InTree

end Walk

end PathSearch
