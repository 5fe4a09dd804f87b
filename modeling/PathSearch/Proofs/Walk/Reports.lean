import PathSearch.Proofs.Walk.Opens

/-!
Runs of a walk: every one is finite, and what is reported in it is what becomes of the entries of the
directories that the walk opens, and of their listings.
-/

namespace PathSearch

@[simp]
theorem Frame.awaiting_awaiting (frame : Frame) (names others : List Text) :
    (frame.awaiting names).awaiting others = frame.awaiting others := rfl

namespace Walk

variable {system : FileSystem} {options : WalkOptions} {root : Path} {walk before after state : Walk}
  {frame : Frame} {frames outer : List Frame} {above : List Location} {item : WalkItem}
  {items : List WalkItem} {count : Nat}

section Runs

/-- A step of a walk and what it reports. Of what has been found one item is reported at a time, and only
then does the walk go on. -/
inductive Steps (system : FileSystem) (options : WalkOptions) :
    Walk → List WalkItem → Walk → Prop where
  | report (item : WalkItem) (found : List WalkItem) (frames : List Frame) :
      Steps system options ⟨item :: found, frames⟩ [item] ⟨found, frames⟩
  | advance (frame : Frame) (outer : List Frame) :
      Steps system options ⟨[], frame :: outer⟩ []
        ⟨(advance system options frame outer).1, (advance system options frame outer).2⟩

/-- A walk comes to a state in so many steps, and has reported these items by then. -/
inductive Runs (system : FileSystem) (options : WalkOptions) (walk : Walk) :
    List WalkItem → Nat → Walk → Prop where
  | start : Runs system options walk [] 0 walk
  | step {items more : List WalkItem} {count : Nat} {state after : Walk}
      (runs : Runs system options walk items count state)
      (steps : Steps system options state more after) :
      Runs system options walk (items ++ more) (count + 1) after

theorem Steps.size_lt (steps : Steps system options before items after) :
    size system options after < size system options before := by
  cases steps with
  | report item found frames => simp [size]
  | advance frame outer =>
      have less := effort_advance system options frame outer
      have few := advance_length_le system options frame outer
      simp only [size, List.length_nil]
      omega

theorem Steps.toList_eq (steps : Steps system options before items after) :
    toList system options before = items ++ toList system options after := by
  cases steps with
  | report item found frames => exact toList_found system options item found frames
  | advance frame outer =>
      rw [List.nil_append, toList_advance, ← toList_append]

theorem exists_steps (going : state ≠ ⟨[], []⟩) :
    ∃ items after, Steps system options state items after := by
  obtain ⟨found, frames⟩ := state
  cases found with
  | cons item found => exact ⟨_, _, .report item found frames⟩
  | nil =>
      cases frames with
      | nil => exact absurd rfl going
      | cons frame outer => exact ⟨_, _, .advance frame outer⟩

theorem Runs.size_le (runs : Runs system options walk items count state) :
    count + size system options state ≤ size system options walk := by
  induction runs with
  | start => omega
  | step _ steps ih =>
      have less := steps.size_lt
      omega

theorem Runs.toList_eq (runs : Runs system options walk items count state) :
    toList system options walk = items ++ toList system options state := by
  induction runs with
  | start => rfl
  | step _ steps ih => rw [ih, steps.toList_eq, List.append_assoc]

/-- A run is bounded, and goes on until everything is reported and every directory is left. -/
theorem Runs.bounded (runs : Runs system options walk items count state) :
    count ≤ size system options walk ∧
      (state = ⟨[], []⟩ ∧ items = toList system options walk ∨
        ∃ more after, Steps system options state more after) := by
  have bound := runs.size_le
  refine ⟨by omega, ?_⟩
  by_cases ended : state = ⟨[], []⟩
  · refine .inl ⟨ended, ?_⟩
    rw [runs.toList_eq, ended, toList_ended, List.append_nil]
  · exact .inr (exists_steps ended)

end Runs

section Branch

/-- The directories on a stack are opened one inside the other, and of each some last names are still to
come. -/
inductive Branch (system : FileSystem) (options : WalkOptions) (root : Path) : List Frame → Prop where
  | nil : Branch system options root []
  | cons {whole : Frame} {outer : List Frame} {names : List Text}
      (opened : Opens system options root whole (outer.map Frame.location))
      (later : names <:+ whole.listing.names) (around : Branch system options root outer) :
      Branch system options root (whole.awaiting names :: outer)

theorem Opens.branch (opened : Opens system options root frame (outer.map Frame.location))
    (around : Branch system options root outer) : Branch system options root (frame :: outer) :=
  .cons opened (List.suffix_refl frame.listing.names) around

/-- What a walk reports, its root apart: it is about an entry of a directory that the walk opens, or
about the directory's listing. -/
def Reports (system : FileSystem) (options : WalkOptions) (root : Path) (item : WalkItem) : Prop :=
  ∃ frame above, Opens system options root frame above ∧
    ((∃ name ∈ frame.listing.names, item ∈ (visit system options frame above name).1) ∨
      item ∈ frame.breakage)

theorem branch_advance (branch : Branch system options root (frame :: outer)) :
    Branch system options root (advance system options frame outer).2 ∧
      ∀ item ∈ (advance system options frame outer).1, Reports system options root item := by
  cases branch with
  | @cons whole _ names opened later around =>
      cases names with
      | nil =>
          rw [advance_of_nil system options rfl]
          exact ⟨around, fun item member => ⟨whole, _, opened, .inr member⟩⟩
      | cons name rest =>
          have listed : name ∈ whole.listing.names := later.subset (List.mem_cons_self ..)
          have below : Branch system options root (whole.awaiting rest :: outer) :=
            .cons opened ((List.suffix_cons name rest).trans later) around
          rw [advance_of_cons system options rfl]
          refine ⟨?_, fun item member => ⟨whole, _, opened, .inl ⟨name, listed, member⟩⟩⟩
          cases entered : (visit system options (whole.awaiting (name :: rest))
              (outer.map Frame.location) name).2 with
          | none => exact below
          | some inner => exact (opened.entry listed (enters_of_visit entered)).branch below

theorem Branch.awaiting_cons {name : Text} {rest : List Text}
    (branch : Branch system options root (frame.awaiting (name :: rest) :: outer)) :
    Branch system options root
      ((visit system options frame (outer.map Frame.location) name).2.toList ++
        frame.awaiting rest :: outer) := by
  have onward := (branch_advance branch).1
  rw [advance_of_cons system options rfl] at onward
  exact onward

theorem Steps.branch (branch : Branch system options root before.frames)
    (steps : Steps system options before items after) : Branch system options root after.frames := by
  cases steps with
  | report => exact branch
  | advance frame outer => exact (branch_advance branch).1

theorem Runs.branch (branch : Branch system options root walk.frames)
    (runs : Runs system options walk items count state) :
    Branch system options root state.frames := by
  induction runs with
  | start => exact branch
  | step _ steps ih => exact steps.branch ih

theorem reports_of_mem_toList (branch : Branch system options root frames)
    (member : item ∈ toList system options ⟨[], frames⟩) : Reports system options root item := by
  induction bound : effort system options frames using Nat.strongRecOn generalizing frames with
  | ind bound ih =>
      subst bound
      cases frames with
      | nil => simp [toList_ended] at member
      | cons frame outer =>
          obtain ⟨onward, reported⟩ := branch_advance branch
          rw [toList_advance] at member
          rcases List.mem_append.mp member with member | member
          · exact reported item member
          · exact ih _ (effort_advance system options frame outer) onward member rfl

/-- With the first names of a directory done, what it and the directories around it still report is the
end of what they report. -/
theorem toList_awaiting_suffix {names : List Text} (later : names <:+ frame.listing.names)
    (outer : List Frame) :
    toList system options ⟨[], frame.awaiting names :: outer⟩ <:+
      toList system options ⟨[], frame :: outer⟩ := by
  obtain ⟨front, split⟩ := later
  induction front generalizing frame with
  | nil => rw [← List.nil_append names, split]; exact List.suffix_refl _
  | cons name front ih =>
      obtain ⟨items, onward⟩ := exists_toList_append system options
        (visit system options frame (outer.map Frame.location) name).2.toList
        (frame.awaiting (front ++ names) :: outer)
      have next : frame.listing.names = name :: (front ++ names) := split.symm
      rw [toList_of_cons system options next, onward]
      have rest := @ih (frame.awaiting (front ++ names)) rfl
      exact (rest.trans (List.suffix_append _ _)).trans (List.suffix_append _ _)

/-- What is reported from the opening of a directory on is the end of what the walk reports. -/
theorem Opens.exists_toList_suffix (started : start system options root = .ok walk)
    (opened : Opens system options root frame above) :
    ∃ outer : List Frame, outer.map Frame.location = above ∧
      toList system options ⟨[], frame :: outer⟩ <:+ toList system options walk := by
  induction opened with
  | root found deep listed =>
      refine ⟨[], rfl, ?_⟩
      cases started.symm.trans (Starts.opened found deep listed).start_eq
      exact ⟨_, (toList_append ..).symm⟩
  | @entry frame inner above name outerOpened member enters ih =>
      obtain ⟨outer, rfl, suffix⟩ := ih
      obtain ⟨front, rest, split⟩ := List.append_of_mem member
      have onward := @toList_awaiting_suffix system options frame (name :: rest) ⟨front, split.symm⟩ outer
      refine ⟨frame.awaiting rest :: outer, rfl, ?_⟩
      refine List.IsSuffix.trans ?_ (onward.trans suffix)
      rw [toList_awaiting_cons, enters.visit_eq]
      exact List.suffix_append _ _

theorem mem_toList_of_reports (started : start system options root = .ok walk)
    (reports : Reports system options root item) : item ∈ toList system options walk := by
  obtain ⟨frame, above, opened, reported⟩ := reports
  obtain ⟨outer, rfl, suffix⟩ := opened.exists_toList_suffix started
  rcases reported with ⟨name, listed, member⟩ | member
  · obtain ⟨front, rest, split⟩ := List.append_of_mem listed
    have onward := @toList_awaiting_suffix system options frame (name :: rest) ⟨front, split.symm⟩ outer
    apply (onward.trans suffix).subset
    rw [toList_awaiting_cons]
    exact List.mem_append_left _ member
  · have onward := @toList_awaiting_suffix system options frame [] (List.nil_suffix) outer
    apply (onward.trans suffix).subset
    rw [toList_of_nil system options rfl]
    exact List.mem_append_left _ member

/-- How a walk starts: with its root alone, or with the root's listing too. -/
theorem start_eq_ok (started : start system options root = .ok walk) :
    (∃ kind, walk.found = itemsOf options root kind) ∧ Branch system options root walk.frames := by
  have starts := starts_start system options root
  rw [started] at starts
  cases starts with
  | file => exact ⟨⟨true, rfl⟩, .nil⟩
  | other => exact ⟨⟨false, rfl⟩, .nil⟩
  | shallow => exact ⟨⟨false, rfl⟩, .nil⟩
  | opened found deep listed =>
      have opened := Opens.root found deep listed
      exact ⟨⟨false, rfl⟩, opened.branch .nil⟩

/-- All that a walk reports: its root, if that is wanted, and what its directories come to. -/
theorem mem_toList_iff (started : start system options root = .ok walk) :
    item ∈ toList system options walk ↔
      item ∈ walk.found ∨ Reports system options root item := by
  have whole : toList system options walk =
      walk.found ++ toList system options ⟨[], walk.frames⟩ := toList_append ..
  constructor
  · intro member
    rw [whole] at member
    exact (List.mem_append.mp member).imp_right (reports_of_mem_toList (start_eq_ok started).2)
  · rintro (member | reports)
    · rw [whole]
      exact List.mem_append_left _ member
    · exact mem_toList_of_reports started reports

/-- Failures are about what lies in directories, never about the root's own entry. -/
theorem failure_mem_toList_iff (started : start system options root = .ok walk) {path : Path}
    {error : FileError} :
    .failure path error ∈ toList system options walk ↔
      Reports system options root (.failure path error) := by
  rw [mem_toList_iff started]
  obtain ⟨⟨kind, found⟩, -⟩ := start_eq_ok started
  constructor
  · rintro (member | reports)
    · rw [found] at member
      cases itemsOf_path member
    · exact reports
  · exact .inr

end Branch

end Walk

end PathSearch
