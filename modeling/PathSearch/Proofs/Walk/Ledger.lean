import PathSearch.Walk.Basic

/-!
An account of the handles on directories: one for each directory opened, with how often it was closed. The
directories being listed hold the handles that are open.
-/

namespace PathSearch

/-- A handle on the directory at a path. Closing goes through the mark `closed`, so that it reaches the
handle, where it is counted, only once. -/
structure Handle where
  path : Path
  closed : Bool := false
  closings : Nat := 0
  deriving DecidableEq

namespace Handle

def close (handle : Handle) : Handle :=
  if handle.closed then handle else { handle with closed := true, closings := handle.closings + 1 }

@[simp]
theorem close_open (path : Path) : ({ path } : Handle).close = ⟨path, true, 1⟩ := rfl

@[simp]
theorem close_closed (path : Path) (closings : Nat) :
    (⟨path, true, closings⟩ : Handle).close = ⟨path, true, closings⟩ := rfl

theorem close_path (handle : Handle) : handle.close.path = handle.path := by
  unfold close
  split <;> rfl

end Handle

/-- Every handle opened so far, latest first. A handle has the number of those opened before it. -/
abbrev Ledger := List Handle

/-- A directory that is listed, and the number of the handle on it. -/
structure Held where
  frame : Frame
  handle : Nat
  deriving DecidableEq

namespace Ledger

def acquire (path : Path) (ledger : Ledger) : Ledger := { path } :: ledger

/-- Closes the handle with a number. -/
def release (number : Nat) : Ledger → Ledger
  | [] => []
  | handle :: older =>
      if older.length = number then handle.close :: older else handle :: release number older

def releaseAll (numbers : List Nat) (ledger : Ledger) : Ledger :=
  numbers.foldl (fun ledger number => ledger.release number) ledger

/-- Closing a handle leaves it in the account. -/
theorem map_path_release (number : Nat) (ledger : Ledger) :
    (ledger.release number).map Handle.path = ledger.map Handle.path := by
  induction ledger with
  | nil => rfl
  | cons handle older ih =>
      unfold release
      split
      · simp [Handle.close_path]
      · simp [ih]

theorem map_path_releaseAll (numbers : List Nat) (ledger : Ledger) :
    (ledger.releaseAll numbers).map Handle.path = ledger.map Handle.path := by
  induction numbers generalizing ledger with
  | nil => rfl
  | cons number numbers ih => exact (ih _).trans (map_path_release number ledger)

theorem length_release (number : Nat) (ledger : Ledger) :
    (ledger.release number).length = ledger.length := by
  simpa using congrArg List.length (map_path_release number ledger)

/-- The directories whose handles are open, in the order of opening. -/
def openPaths (ledger : Ledger) : List Path :=
  ((ledger.filter fun handle => handle.closings = 0).map Handle.path).reverse

/-- The open handles are those of the directories, innermost first, and every other one was closed
once. -/
inductive Tracks : List Held → Ledger → Prop where
  | none : Tracks [] []
  | kept {stack : List Held} {ledger : Ledger} {held : Held} (tracks : Tracks stack ledger)
      (number : held.handle = ledger.length) :
      Tracks (held :: stack) (ledger.acquire held.frame.path)
  | done {stack : List Held} {ledger : Ledger} {path : Path} (tracks : Tracks stack ledger) :
      Tracks stack (⟨path, true, 1⟩ :: ledger)

theorem filter_eq_self_of_lt {stack : List Held} {number : Nat}
    (earlier : ∀ held ∈ stack, held.handle < number) :
    stack.filter (fun held => held.handle ≠ number) = stack := by
  refine List.filter_eq_self.mpr ?_
  intro held member
  simpa using Nat.ne_of_lt (earlier held member)

namespace Tracks

variable {stack : List Held} {ledger : Ledger}

theorem handle_lt (tracks : Tracks stack ledger) : ∀ held ∈ stack, held.handle < ledger.length := by
  induction tracks with
  | none => simp
  | kept _ number ih =>
      intro other member
      rcases List.mem_cons.mp member with rfl | member
      · simp [acquire, number]
      · exact Nat.lt_succ_of_lt (ih other member)
  | done _ ih => exact fun other member => Nat.lt_succ_of_lt (ih other member)

theorem openPaths_eq (tracks : Tracks stack ledger) :
    ledger.openPaths = ((stack.map Held.frame).map Frame.path).reverse := by
  induction tracks with
  | none => rfl
  | kept _ _ ih =>
      simp only [openPaths, List.reverse_inj] at ih
      simp [openPaths, acquire, ih]
  | done _ ih =>
      simp only [openPaths, List.reverse_inj] at ih
      simp [openPaths, ih]

theorem closings_le_one (tracks : Tracks stack ledger) : ∀ handle ∈ ledger, handle.closings ≤ 1 := by
  induction tracks with
  | none => simp
  | kept _ _ ih => exact List.forall_mem_cons.mpr ⟨Nat.zero_le 1, ih⟩
  | done _ ih => exact List.forall_mem_cons.mpr ⟨Nat.le_refl 1, ih⟩

/-- Whichever handle is closed, no other is touched, and one that is closed already is not closed
again. -/
theorem release (tracks : Tracks stack ledger) (number : Nat) :
    Tracks (stack.filter fun held => held.handle ≠ number) (ledger.release number) := by
  induction tracks with
  | none => exact .none
  | @kept stack ledger held tracks own ih =>
      by_cases here : ledger.length = number
      · subst here
        have rest := filter_eq_self_of_lt tracks.handle_lt
        simp only [ne_eq, decide_not] at rest
        simpa [Ledger.release, acquire, own, rest] using tracks.done
      · have other : held.handle ≠ number := own ▸ here
        rw [List.filter_cons_of_pos (by simpa using other)]
        simpa [Ledger.release, acquire, here] using ih.kept (by rw [length_release, own])
  | @done stack ledger path tracks ih =>
      by_cases here : ledger.length = number
      · subst here
        rw [filter_eq_self_of_lt tracks.handle_lt]
        simpa [Ledger.release] using tracks.done
      · simpa [Ledger.release, here] using ih.done

theorem descending (tracks : Tracks stack ledger) :
    stack.Pairwise fun inner outer => outer.handle < inner.handle := by
  induction tracks with
  | none => exact .nil
  | kept tracks own ih => exact .cons (fun outer member => own ▸ tracks.handle_lt outer member) ih
  | done _ ih => exact ih

theorem release_innermost {held : Held} (tracks : Tracks (held :: stack) ledger) :
    Tracks stack (ledger.release held.handle) := by
  have earlier : ∀ outer ∈ stack, outer.handle < held.handle :=
    fun outer member => List.rel_of_pairwise_cons tracks.descending member
  have released := tracks.release held.handle
  rwa [List.filter_cons_of_neg (by simp), filter_eq_self_of_lt earlier] at released

theorem releaseAll (tracks : Tracks stack ledger) (numbers : List Nat) :
    Tracks (stack.filter fun held => held.handle ∉ numbers) (ledger.releaseAll numbers) := by
  induction numbers generalizing stack ledger with
  | nil =>
      rw [List.filter_eq_self.mpr (by simp)]
      exact tracks
  | cons number numbers ih =>
      have released := ih (tracks.release number)
      rw [List.filter_filter] at released
      simpa [Ledger.releaseAll, not_or, Bool.and_comm] using released

theorem releaseAll_own (tracks : Tracks stack ledger) :
    Tracks [] (ledger.releaseAll (stack.map Held.handle).reverse) := by
  have released := tracks.releaseAll (stack.map Held.handle).reverse
  have none : stack.filter (fun held => held.handle ∉ (stack.map Held.handle).reverse) = [] := by
    refine List.filter_eq_nil_iff.mpr ?_
    intro held member
    simpa using ⟨held, member, rfl⟩
  rwa [none] at released

/-- Names are taken from a directory without another handle on it. -/
theorem relisted {held other : Held} (tracks : Tracks (held :: stack) ledger)
    (path : other.frame.path = held.frame.path) (number : other.handle = held.handle) :
    Tracks (other :: stack) ledger := by
  -- Handles opened later and closed since may lie on top, so this takes an induction.
  generalize whole : held :: stack = all at tracks
  induction tracks with
  | none => cases whole
  | kept tracks own _ =>
      cases whole
      rw [← path]
      exact tracks.kept (number.trans own)
  | done _ ih => exact (ih whole).done

end Tracks

/-- No handle is open, and each one was closed once. -/
structure Released (ledger : Ledger) : Prop where
  none_open : ledger.openPaths = []
  once : ∀ handle ∈ ledger, handle.closings = 1

namespace Tracks

variable {ledger : Ledger}

theorem released (tracks : Tracks [] ledger) : ledger.Released := by
  refine ⟨tracks.openPaths_eq, ?_⟩
  induction ledger with
  | nil => simp
  | cons handle ledger ih =>
      cases tracks with
      | done tracks => exact List.forall_mem_cons.mpr ⟨rfl, ih tracks⟩

theorem release_of_nil (tracks : Tracks [] ledger) (number : Nat) : ledger.release number = ledger := by
  induction ledger with
  | nil => rfl
  | cons handle older ih =>
      cases tracks with
      | done tracks => simp [Ledger.release, ih tracks]

theorem releaseAll_of_nil (tracks : Tracks [] ledger) (numbers : List Nat) :
    ledger.releaseAll numbers = ledger := by
  induction numbers with
  | nil => rfl
  | cons number numbers ih =>
      rw [Ledger.releaseAll, List.foldl_cons, tracks.release_of_nil]
      exact ih

end Tracks

end Ledger

end PathSearch
