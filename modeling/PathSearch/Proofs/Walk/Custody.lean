import PathSearch.Proofs.Walk.Ledger
import PathSearch.Proofs.Walk.Nested

/-!
A walk with the handles that it has on directories. The handle on the root is opened with the walk, before
any item is asked for, and only a walk that has given its root is ready to close the directories it is in:
until then there is the root alone to close. The items are those of the walk without its handles.
-/

namespace PathSearch

open Walk (Operation)

/-- A walk between two items, below its root: what it has found and not yet given, the directories that it
is in, innermost first, and all handles so far. -/
structure Descent where
  found : List WalkItem
  stack : List Held
  ledger : Ledger

namespace Descent

def walk (descent : Descent) : Walk := ⟨descent.found, descent.stack.map Held.frame⟩

variable (system : FileSystem) (options : WalkOptions)

/-- One step in the innermost directory `held`. A directory that is gone into is opened before anything is
reported about it, and one whose listing ends or breaks off is closed before that is reported. -/
def step (held : Held) (outer : List Held) (ledger : Ledger) : Descent :=
  match held.frame.listing.names with
  | [] => ⟨held.frame.breakage, outer, ledger.release held.handle⟩
  | name :: rest =>
      let around := { held with frame := held.frame.awaiting rest } :: outer
      match Walk.visit system options held.frame ((outer.map Held.frame).map Frame.location) name with
      | (items, none) => ⟨items, around, ledger⟩
      | (items, some inner) => ⟨items, ⟨inner, ledger.length⟩ :: around, ledger.acquire inner.path⟩

variable {system options}

theorem walk_step (held : Held) (outer : List Held) (ledger : Ledger) :
    (step system options held outer ledger).walk =
      ⟨(Walk.advance system options held.frame (outer.map Held.frame)).1,
        (Walk.advance system options held.frame (outer.map Held.frame)).2⟩ := by
  unfold step
  cases names : held.frame.listing.names with
  | nil =>
      rw [Walk.advance_of_nil system options names]
      rfl
  | cons name rest =>
      rw [Walk.advance_of_cons system options names]
      simp only
      rcases Walk.visit system options held.frame ((outer.map Held.frame).map Frame.location) name with
        ⟨items, _ | inner⟩
      · rfl
      · rfl

theorem size_step_lt (held : Held) (outer : List Held) (ledger : Ledger) :
    Walk.size system options (step system options held outer ledger).walk <
      Walk.size system options ⟨[], held.frame :: outer.map Held.frame⟩ := by
  have less := Walk.effort_advance system options held.frame (outer.map Held.frame)
  have few := Walk.advance_length_le system options held.frame (outer.map Held.frame)
  rw [walk_step]
  simp only [Walk.size, List.length_nil]
  omega

theorem tracks_step {held : Held} {outer : List Held} {ledger : Ledger}
    (tracks : ledger.Tracks (held :: outer)) :
    (step system options held outer ledger).ledger.Tracks
      (step system options held outer ledger).stack := by
  unfold step
  cases held.frame.listing.names with
  | nil => exact tracks.release_innermost
  | cons name rest =>
      have around : ledger.Tracks ({ held with frame := held.frame.awaiting rest } :: outer) :=
        tracks.relisted rfl rfl
      simp only
      rcases Walk.visit system options held.frame ((outer.map Held.frame).map Frame.location) name with
        ⟨items, _ | inner⟩
      · exact around
      · exact around.kept rfl

/-- No handle drops out of the account. -/
theorem map_path_suffix_step (held : Held) (outer : List Held) (ledger : Ledger) :
    ledger.map Handle.path <:+ (step system options held outer ledger).ledger.map Handle.path := by
  unfold step
  cases held.frame.listing.names with
  | nil => exact (Ledger.map_path_release held.handle ledger).symm ▸ List.suffix_refl _
  | cons name rest =>
      simp only
      rcases Walk.visit system options held.frame ((outer.map Held.frame).map Frame.location) name with
        ⟨items, _ | inner⟩
      · exact List.suffix_refl _
      · exact List.suffix_cons ..

variable (system options)

/-- The next item, if there is one, and where the walk is then. -/
def resume : Descent → Option WalkItem × Descent
  | ⟨item :: rest, stack, ledger⟩ => (some item, ⟨rest, stack, ledger⟩)
  | ⟨[], [], ledger⟩ => (none, ⟨[], [], ledger⟩)
  | ⟨[], held :: outer, ledger⟩ => resume (step system options held outer ledger)
termination_by descent => Walk.size system options descent.walk
decreasing_by exact size_step_lt held outer ledger

variable {system options}

theorem walk_resume (descent : Descent) :
    ((resume system options descent).1, (resume system options descent).2.walk) =
      Walk.next system options descent.walk := by
  fun_induction resume system options descent with
  | case1 => simp only [walk, Walk.next]
  | case2 => simp only [walk, List.map_nil, Walk.next_ended]
  | case3 held outer ledger ih =>
      rw [ih, walk_step, walk, List.map_cons]
      conv => rhs; rw [Walk.next]

theorem tracks_resume {descent : Descent} (tracks : descent.ledger.Tracks descent.stack) :
    (resume system options descent).2.ledger.Tracks (resume system options descent).2.stack := by
  fun_induction resume system options descent with
  | case1 => exact tracks
  | case2 => exact tracks
  | case3 _ _ _ ih => exact ih (tracks_step tracks)

theorem map_path_suffix_resume (descent : Descent) :
    descent.ledger.map Handle.path <:+
      (resume system options descent).2.ledger.map Handle.path := by
  fun_induction resume system options descent with
  | case1 => exact List.suffix_refl _
  | case2 => exact List.suffix_refl _
  | case3 held outer ledger ih => exact (map_path_suffix_step held outer ledger).trans ih

theorem eq_of_walk_ended {descent : Descent} (ended : descent.walk = ⟨[], []⟩) :
    descent = ⟨[], [], descent.ledger⟩ := by
  obtain ⟨found, stack, ledger⟩ := descent
  simp only [walk, Walk.mk.injEq, List.map_eq_nil_iff] at ended
  obtain ⟨rfl, rfl⟩ := ended
  rfl

theorem resume_ended (ledger : Ledger) :
    resume system options ⟨[], [], ledger⟩ = (none, ⟨[], [], ledger⟩) := by
  rw [resume]

/-- A walk with no item left has left all its directories. -/
theorem eq_of_resume_none {descent later : Descent}
    (spent : resume system options descent = (none, later)) : later = ⟨[], [], later.ledger⟩ := by
  have same := @walk_resume system options descent
  rw [spent] at same
  have ended := Walk.next_eq_none (congrArg Prod.fst same).symm
  rw [ended] at same
  exact eq_of_walk_ended (congrArg Prod.snd same)

end Descent

/-- How far a walk with its handles has come: nothing has been asked of it, it has given its root and
nothing else, it is below its root, or it has ended. -/
inductive WalkPhase where
  | fresh
  | atRoot
  | inside (found : List WalkItem) (stack : List Held)
  | finished

/-- A walk with its handles. The root as an item, if it is reported, and the root as a directory, if it is
listed, are there from the start. -/
structure WalkStream where
  own : Option WalkItem
  root : Option Held
  ledger : Ledger
  phase : WalkPhase

namespace WalkStream

/-- A walk just opened: the handle on its root, if there is one, is the first. -/
def ofWalk (walk : Walk) : WalkStream :=
  { own := walk.found.head?
    root := walk.frames.head?.map fun frame => ⟨frame, 0⟩
    ledger := walk.frames.head?.elim [] fun frame => Ledger.acquire frame.path []
    phase := .fresh }

/-- Where the walk is. As long as it has not left its root it is about to go into it. -/
def descent : WalkStream → Descent
  | ⟨own, root, ledger, .fresh⟩ => ⟨own.toList, root.toList, ledger⟩
  | ⟨_, root, ledger, .atRoot⟩ => ⟨[], root.toList, ledger⟩
  | ⟨_, _, ledger, .inside found stack⟩ => ⟨found, stack, ledger⟩
  | ⟨_, _, ledger, .finished⟩ => ⟨[], [], ledger⟩

section Operations

variable (system : FileSystem) (options : WalkOptions)

def follow (stream : WalkStream) (descent : Descent) : Option WalkItem × WalkStream :=
  match descent.resume system options with
  | (some item, later) =>
      (some item, { stream with ledger := later.ledger, phase := .inside later.found later.stack })
  | (none, later) => (none, { stream with ledger := later.ledger, phase := .finished })

def next (stream : WalkStream) : Option WalkItem × WalkStream :=
  match stream.phase with
  | .fresh =>
      match stream.own with
      | some item => (some item, { stream with phase := .atRoot })
      | none => stream.follow system options ⟨[], stream.root.toList, stream.ledger⟩
  | .atRoot => stream.follow system options ⟨[], stream.root.toList, stream.ledger⟩
  | .inside found stack => stream.follow system options ⟨found, stack, stream.ledger⟩
  | .finished => (none, stream)

/-- Closes the directories that the walk is in, the outermost first, and then the root, which the walk may
have left, or not have gone into yet. -/
def close (stream : WalkStream) : WalkStream :=
  let ledger :=
    match stream.phase with
    | .inside _ stack => stream.ledger.releaseAll (stack.map Held.handle).reverse
    | _ => stream.ledger
  { stream with ledger := ledger.releaseAll (stream.root.toList.map Held.handle), phase := .finished }

def perform : Operation → WalkStream → Option WalkItem × WalkStream
  | .next, stream => stream.next system options
  | .close, stream | .exit, stream => (none, stream.close)

def performAll (operations : List Operation) (stream : WalkStream) : WalkStream :=
  operations.foldl (fun stream operation => (perform system options operation stream).2) stream

end Operations

variable {system : FileSystem} {options : WalkOptions} {root : Path} {stream : WalkStream}

theorem descent_follow (stream : WalkStream) (descent : Descent) :
    ((stream.follow system options descent).1, (stream.follow system options descent).2.descent) =
      descent.resume system options := by
  unfold follow
  rcases resumed : descent.resume system options with ⟨_ | item, later⟩
  · rw [Descent.eq_of_resume_none resumed]
    rfl
  · rfl

theorem descent_next (stream : WalkStream) :
    ((stream.next system options).1, (stream.next system options).2.descent) =
      stream.descent.resume system options := by
  obtain ⟨own, root, ledger, phase⟩ := stream
  cases phase with
  | fresh =>
      cases own with
      | none => exact descent_follow ..
      | some item =>
          simp only [descent, Option.toList]
          rw [Descent.resume]
          rfl
  | atRoot => exact descent_follow ..
  | inside => exact descent_follow ..
  | finished =>
      simp only [descent]
      rw [Descent.resume_ended]
      rfl

theorem ledger_descent (stream : WalkStream) : stream.descent.ledger = stream.ledger := by
  obtain ⟨own, root, ledger, phase⟩ := stream
  cases phase <;> rfl

theorem walk_next (stream : WalkStream) :
    ((stream.next system options).1, (stream.next system options).2.descent.walk) =
      Walk.next system options stream.descent.walk := by
  have walked := @Descent.walk_resume system options stream.descent
  rw [← descent_next] at walked
  exact walked

/-- What is done with a walk and its handles comes to the same as with the walk alone. -/
theorem walk_perform (operation : Operation) (stream : WalkStream) :
    ((perform system options operation stream).1,
        (perform system options operation stream).2.descent.walk) =
      Walk.perform system options operation stream.descent.walk := by
  cases operation with
  | next => exact walk_next stream
  | close => rfl
  | exit => rfl

theorem walk_performAll (operations : List Operation) (stream : WalkStream) :
    (performAll system options operations stream).descent.walk =
      Walk.performAll system options operations stream.descent.walk := by
  induction operations generalizing stream with
  | nil => rfl
  | cons operation operations ih =>
      have first := congrArg Prod.snd (@walk_perform system options operation stream)
      exact (ih _).trans (congrArg (Walk.performAll system options operations) first)

theorem map_path_close (stream : WalkStream) :
    stream.close.ledger.map Handle.path = stream.ledger.map Handle.path := by
  obtain ⟨own, root, ledger, phase⟩ := stream
  cases phase <;> simp [close, Ledger.map_path_releaseAll]

theorem map_path_suffix_next {item : Option WalkItem} {rest : WalkStream}
    (taken : stream.next system options = (item, rest)) :
    stream.ledger.map Handle.path <:+ rest.ledger.map Handle.path := by
  have later := @Descent.map_path_suffix_resume system options stream.descent
  rwa [← descent_next, taken, ledger_descent, ledger_descent] at later

theorem map_path_suffix_perform (operation : Operation) (stream : WalkStream) :
    stream.ledger.map Handle.path <:+
      (perform system options operation stream).2.ledger.map Handle.path := by
  cases operation with
  | next => exact map_path_suffix_next rfl
  | close => exact (map_path_close stream).symm ▸ List.suffix_refl _
  | exit => exact (map_path_close stream).symm ▸ List.suffix_refl _

theorem map_path_suffix_performAll (operations : List Operation) (stream : WalkStream) :
    stream.ledger.map Handle.path <:+
      (performAll system options operations stream).ledger.map Handle.path := by
  induction operations generalizing stream with
  | nil => exact List.suffix_refl _
  | cons operation operations ih => exact (map_path_suffix_perform operation stream).trans (ih _)

/-- The account of a walk: the handles that are open are those on the directories that the walk is in,
which lie in one another, and no handle was closed twice. -/
structure Accounts (system : FileSystem) (options : WalkOptions) (root : Path) (ledger : Ledger)
    (walk : Walk) : Prop where
  nested : Walk.Nested system options root walk.frames
  openPaths_eq : ledger.openPaths = walk.openPaths
  once : ∀ handle ∈ ledger, handle.closings ≤ 1

/-- The directories that the walk is in lie in one another, and the handles on them are those that are
open. -/
structure Kept (system : FileSystem) (options : WalkOptions) (root : Path) (stream : WalkStream) :
    Prop where
  inTree : Walk.InTree system options root stream.descent.walk
  tracks : stream.ledger.Tracks stream.descent.stack

theorem walk_ofWalk {walk : Walk} (started : Walk.start system options root = .ok walk) :
    (ofWalk walk).descent.walk = walk := by
  have own : ∀ kind, (Walk.itemsOf options root kind).head?.toList = Walk.itemsOf options root kind := by
    intro kind
    unfold Walk.itemsOf
    split <;> rfl
  have starts := Walk.starts_start system options root
  rw [started] at starts
  cases starts <;> simp [ofWalk, descent, Descent.walk, own]

theorem tracks_ofWalk (walk : Walk) : (ofWalk walk).ledger.Tracks (ofWalk walk).descent.stack := by
  obtain ⟨found, frames⟩ := walk
  cases frames with
  | nil => exact .none
  | cons frame outer => exact .kept .none rfl

theorem kept_ofWalk {walk : Walk} (started : Walk.start system options root = .ok walk) :
    Kept system options root (ofWalk walk) :=
  ⟨(walk_ofWalk started).symm ▸ Walk.inTree_start started, tracks_ofWalk walk⟩

/-- Closing a walk closes what is open, whether or not the walk has been begun. -/
theorem tracks_close (tracks : stream.ledger.Tracks stream.descent.stack) :
    stream.close.ledger.Tracks [] := by
  obtain ⟨own, root, ledger, phase⟩ := stream
  -- Until the walk goes below its root there is at most the root to close.
  have closes : ∀ {ledger : Ledger}, ledger.Tracks root.toList →
      (ledger.releaseAll (root.toList.map Held.handle)).Tracks [] := by
    intro ledger tracks
    have released := tracks.releaseAll_own
    cases root <;> exact released
  cases phase with
  | fresh => exact closes tracks
  | atRoot => exact closes tracks
  | inside found stack => exact tracks.releaseAll_own.releaseAll _
  | finished => exact tracks.releaseAll _

namespace Kept

theorem perform (kept : Kept system options root stream) (operation : Operation) :
    Kept system options root (WalkStream.perform system options operation stream).2 := by
  refine ⟨?_, ?_⟩
  · have walked := kept.inTree.perform operation
    rwa [← walk_perform] at walked
  · cases operation with
    | next =>
        have later := @Descent.tracks_resume system options stream.descent
          (by rw [ledger_descent]; exact kept.tracks)
        rwa [← descent_next, ledger_descent] at later
    | close => exact tracks_close kept.tracks
    | exit => exact tracks_close kept.tracks

theorem next (kept : Kept system options root stream) {item : Option WalkItem} {rest : WalkStream}
    (taken : stream.next system options = (item, rest)) : Kept system options root rest := by
  have later := kept.perform .next
  rwa [WalkStream.perform, taken] at later

theorem performAll (kept : Kept system options root stream) (operations : List Operation) :
    Kept system options root (WalkStream.performAll system options operations stream) := by
  induction operations generalizing stream with
  | nil => exact kept
  | cons operation operations ih => exact ih (kept.perform operation)

theorem accounts (kept : Kept system options root stream) :
    Accounts system options root stream.ledger stream.descent.walk :=
  ⟨kept.inTree.nested, kept.tracks.openPaths_eq, kept.tracks.closings_le_one⟩

variable (ended : stream.descent.walk = ⟨[], []⟩)

include ended

theorem tracks_nil (kept : Kept system options root stream) : stream.ledger.Tracks [] := by
  have tracks := kept.tracks
  rwa [Descent.eq_of_walk_ended ended] at tracks

/-- What has ended is not touched any more. -/
theorem perform_ended (kept : Kept system options root stream) (operation : Operation) :
    (WalkStream.perform system options operation stream).1 = none ∧
      (WalkStream.perform system options operation stream).2.ledger = stream.ledger ∧
      (WalkStream.perform system options operation stream).2.descent.walk = ⟨[], []⟩ := by
  have walked := @walk_perform system options operation stream
  rw [ended, Walk.perform_ended, Prod.mk.injEq] at walked
  refine ⟨walked.1, ?_, walked.2⟩
  have closed : stream.close.ledger = stream.ledger := by
    have tracks := kept.tracks_nil ended
    obtain ⟨own, root, ledger, phase⟩ := stream
    cases phase <;> simp only [WalkStream.close, tracks.releaseAll_of_nil]
  cases operation with
  | next =>
      have later := congrArg (Descent.ledger ∘ Prod.snd) (@descent_next system options stream)
      rw [Descent.eq_of_walk_ended ended, Descent.resume_ended] at later
      simp only [Function.comp_apply, ledger_descent] at later
      exact later
  | close => exact closed
  | exit => exact closed

theorem performAll_ended (kept : Kept system options root stream) (operations : List Operation) :
    (WalkStream.performAll system options operations stream).ledger = stream.ledger ∧
      (WalkStream.performAll system options operations stream).descent.walk = ⟨[], []⟩ := by
  induction operations generalizing stream with
  | nil => exact ⟨rfl, ended⟩
  | cons operation operations ih =>
      obtain ⟨-, same, spent⟩ := kept.perform_ended ended operation
      obtain ⟨later, still⟩ := ih spent (kept.perform operation)
      exact ⟨later.trans same, still⟩

end Kept

end WalkStream

end PathSearch
