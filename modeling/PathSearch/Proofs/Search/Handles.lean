import PathSearch.Proofs.Walk.Custody
import PathSearch.Scan

/-!
No handle outlives its use. A scan opens its base when its first path is asked for, and closes the walk
below it when that is over, when it fails, and when it is closed itself.
-/

namespace PathSearch

namespace ScanPlan

variable {plan : ScanPlan} {walk rest : Walk}

theorem pull_of_none (taken : Walk.next plan.system plan.options walk = (none, rest)) :
    plan.pull walk = ⟨.ok none, rest, []⟩ := by
  unfold pull
  split
  · rename_i again
    cases taken.symm.trans again
    rfl
  · rename_i again
    cases taken.symm.trans again

/-- What a pull comes to when the walk has given an item and is at `rest`. -/
def pullAfter (plan : ScanPlan) (rest : Walk) : Verdict × List ScanNotice → Pull
  | (.pass path, notices) => ⟨.ok (some path), rest, notices⟩
  | (.outside, notices) => ⟨.error .outside, rest.close, notices⟩
  | (.drop, notices) => { plan.pull rest with notices := notices ++ (plan.pull rest).notices }

theorem pull_of_some {item : WalkItem}
    (taken : Walk.next plan.system plan.options walk = (some item, rest)) :
    plan.pull walk = plan.pullAfter rest (plan.judge item) := by
  unfold pull
  split
  · rename_i again
    cases taken.symm.trans again
  · rename_i again
    cases taken.symm.trans again
    rcases plan.judge item with ⟨verdict, notices⟩
    cases verdict <;> rfl

end ScanPlan

/-- A scan with the handles of its walk: not begun, walking below its base, or over. -/
inductive ScanStream where
  | fresh
  | reading (stream : WalkStream)
  | finished (ledger : Ledger)

namespace ScanStream

def ledger : ScanStream → Ledger
  | .fresh => []
  | .reading stream => stream.ledger
  | .finished ledger => ledger

/-- The walk without its handles. -/
def walk : ScanStream → Walk
  | .reading stream => stream.descent.walk
  | .fresh | .finished _ => ⟨[], []⟩

/-- One pull from a scan, as of one without handles. -/
structure Pull where
  result : Except ScanError (Option Path)
  scan : ScanStream
  notices : List ScanNotice

def Pull.bare (pull : Pull) : ScanPlan.Pull := ⟨pull.result, pull.scan.walk, pull.notices⟩

variable (plan : ScanPlan)

def read (stream : WalkStream) : Pull :=
  match _taken : stream.next plan.system plan.options with
  | (none, rest) => ⟨.ok none, .finished rest.close.ledger, []⟩
  | (some item, rest) =>
      match plan.judge item with
      | (.pass path, notices) => ⟨.ok (some path), .reading rest, notices⟩
      | (.outside, notices) => ⟨.error .outside, .finished rest.close.ledger, notices⟩
      | (.drop, notices) =>
          let later := read rest
          { later with notices := notices ++ later.notices }
termination_by Walk.size plan.system plan.options stream.descent.walk
decreasing_by
  have walked := @WalkStream.walk_next plan.system plan.options stream
  rw [_taken] at walked
  exact Walk.size_next_lt plan.system plan.options walked.symm

def pull : ScanStream → Pull
  | .fresh =>
      match Walk.start plan.system plan.options plan.group.base with
      | .ok walk => read plan (.ofWalk walk)
      | .error .embeddedNul => ⟨.error .embeddedNul, .finished [], []⟩
      | .error (.failed error) =>
          if plan.failFast then ⟨.error (.notStarted plan.group.base error), .finished [], []⟩
          else ⟨.ok none, .finished [], [.notStarted plan.group.base error]⟩
  | .reading stream => read plan stream
  | .finished ledger => ⟨.ok none, .finished ledger, []⟩

def close : ScanStream → ScanStream
  | .fresh => .finished []
  | .reading stream => .finished stream.close.ledger
  | .finished ledger => .finished ledger

theorem bare_read (stream : WalkStream) : (read plan stream).bare = plan.pull stream.descent.walk := by
  have walked : ∀ {stream rest : WalkStream} {item : Option WalkItem},
      stream.next plan.system plan.options = (item, rest) →
        Walk.next plan.system plan.options stream.descent.walk = (item, rest.descent.walk) := by
    intro stream rest item taken
    rw [← WalkStream.walk_next, taken]
  fun_induction read plan stream with
  | case1 stream rest taken =>
      have ended := Walk.next_eq_none (congrArg Prod.fst (walked taken))
      rw [ScanPlan.pull_of_none ended]
      rfl
  | case2 stream item rest taken path notices judged =>
      rw [ScanPlan.pull_of_some (walked taken), judged]
      rfl
  | case3 stream item rest taken notices judged =>
      rw [ScanPlan.pull_of_some (walked taken), judged]
      rfl
  | case4 stream item rest taken notices judged later ih =>
      rw [ScanPlan.pull_of_some (walked taken), judged, ScanPlan.pullAfter, ← ih]
      rfl

/-- What a scan without handles does in the same place: it is opened first, if it is not yet. -/
def barePull : ScanStream → ScanPlan.Pull
  | .fresh =>
      match plan.start with
      | .ok (walk, notices) => { plan.pull walk with notices := notices ++ (plan.pull walk).notices }
      | .error error => ⟨.error error, ⟨[], []⟩, []⟩
  | scan => plan.pull scan.walk

theorem pull_ended : plan.pull ⟨[], []⟩ = ⟨.ok none, ⟨[], []⟩, []⟩ :=
  ScanPlan.pull_of_none Walk.next_ended

theorem bare_pull (scan : ScanStream) : (pull plan scan).bare = barePull plan scan := by
  cases scan with
  | fresh =>
      unfold pull barePull ScanPlan.start
      cases started : Walk.start plan.system plan.options plan.group.base with
      | ok walk =>
          simp only [bare_read, WalkStream.walk_ofWalk started, List.nil_append]
      | error error =>
          cases error with
          | embeddedNul => rfl
          | failed error =>
              cases plan.failFast with
              | true => rfl
              | false => simp [pull_ended, Pull.bare, walk]
  | reading stream => exact bare_read plan stream
  | finished => exact (pull_ended plan).symm

/-- What can be done with a scan. -/
inductive Use where
  | pull
  | close
  deriving DecidableEq

def use : Use → ScanStream → ScanStream
  | .pull, scan => (pull plan scan).scan
  | .close, scan => scan.close

def useAll (uses : List Use) (scan : ScanStream) : ScanStream :=
  uses.foldl (fun scan next => use plan next scan) scan

/-- One of the uses ends the scan: it is closed, or it has no further path to give, or it fails. -/
def EndedBy (uses : List Use) (scan : ScanStream) : Prop :=
  ∃ before last after, uses = before ++ last :: after ∧
    (last = .close ∨ ∀ path, (pull plan (useAll plan before scan)).result ≠ .ok (some path))

/-- A walk below the base holds its handles as it should, and a scan that is over holds none. -/
def Kept : ScanStream → Prop
  | .fresh => True
  | .reading stream => stream.Kept plan.system plan.options plan.group.base
  | .finished ledger => ledger.Tracks []

variable {plan} {scan : ScanStream}

theorem kept_read {stream : WalkStream}
    (kept : stream.Kept plan.system plan.options plan.group.base) :
    (read plan stream).scan.Kept plan := by
  fun_induction read plan stream with
  | case1 stream rest taken => exact WalkStream.tracks_close (kept.next taken).tracks
  | case2 stream item rest taken => exact kept.next taken
  | case3 stream item rest taken => exact WalkStream.tracks_close (kept.next taken).tracks
  | case4 stream item rest taken _ _ _ ih => exact ih (kept.next taken)

/-- A scan whose base does not open is over with the first pull, and no handle was opened. -/
theorem scan_pull_of_refused {error : CallError}
    (refused : Walk.start plan.system plan.options plan.group.base = .error error) :
    (ScanStream.pull plan .fresh).scan = .finished [] := by
  unfold ScanStream.pull
  rw [refused]
  cases error with
  | embeddedNul => rfl
  | failed error => cases plan.failFast <;> rfl

theorem Kept.pull (kept : scan.Kept plan) : (scan.pull plan).scan.Kept plan := by
  cases scan with
  | fresh =>
      cases started : Walk.start plan.system plan.options plan.group.base with
      | ok walk =>
          unfold ScanStream.pull
          rw [started]
          exact kept_read (WalkStream.kept_ofWalk started)
      | error error =>
          rw [scan_pull_of_refused started]
          exact .none
  | reading stream => exact kept_read kept
  | finished ledger => exact kept

theorem Kept.tracks_close (kept : scan.Kept plan) : scan.close.ledger.Tracks [] := by
  cases scan with
  | fresh => exact .none
  | reading stream => exact WalkStream.tracks_close kept.tracks
  | finished ledger => exact kept

theorem Kept.close (kept : scan.Kept plan) : scan.close.Kept plan := by
  have tracks := kept.tracks_close
  cases scan <;> exact tracks

theorem Kept.useAll (kept : scan.Kept plan) (uses : List Use) :
    (ScanStream.useAll plan uses scan).Kept plan := by
  induction uses generalizing scan with
  | nil => exact kept
  | cons next uses ih =>
      cases next with
      | pull => exact ih kept.pull
      | close => exact ih kept.close

theorem map_path_suffix_read (stream : WalkStream) :
    stream.ledger.map Handle.path <:+ (read plan stream).scan.ledger.map Handle.path := by
  fun_induction read plan stream with
  | case1 stream rest taken =>
      exact rest.map_path_close.symm ▸ WalkStream.map_path_suffix_next taken
  | case2 stream item rest taken => exact WalkStream.map_path_suffix_next taken
  | case3 stream item rest taken =>
      exact rest.map_path_close.symm ▸ WalkStream.map_path_suffix_next taken
  | case4 stream item rest taken _ _ _ ih => exact (WalkStream.map_path_suffix_next taken).trans ih

theorem map_path_suffix_use (next : Use) (scan : ScanStream) :
    scan.ledger.map Handle.path <:+ (use plan next scan).ledger.map Handle.path := by
  cases scan with
  | fresh => exact List.nil_suffix
  | reading stream =>
      cases next with
      | pull => exact map_path_suffix_read stream
      | close => exact stream.map_path_close.symm ▸ List.suffix_refl _
  | finished ledger => cases next <;> exact List.suffix_refl _

theorem map_path_suffix_useAll (uses : List Use) (scan : ScanStream) :
    scan.ledger.map Handle.path <:+ (useAll plan uses scan).ledger.map Handle.path := by
  induction uses generalizing scan with
  | nil => exact List.suffix_refl _
  | cons next uses ih => exact (map_path_suffix_use next scan).trans (ih _)

theorem useAll_finished (uses : List Use) (ledger : Ledger) :
    useAll plan uses (.finished ledger) = .finished ledger := by
  induction uses with
  | nil => rfl
  | cons next uses ih => cases next <;> exact ih

theorem finished_of_read {stream : WalkStream}
    (last : ∀ path, (read plan stream).result ≠ .ok (some path)) :
    ∃ ledger, (read plan stream).scan = .finished ledger := by
  fun_induction read plan stream with
  | case1 => exact ⟨_, rfl⟩
  | case2 _ _ _ _ path => exact absurd rfl (last path)
  | case3 => exact ⟨_, rfl⟩
  | case4 _ _ _ _ _ _ _ ih => exact ih last

theorem finished_of_pull (last : ∀ path, (pull plan scan).result ≠ .ok (some path)) :
    ∃ ledger, (pull plan scan).scan = .finished ledger := by
  cases scan with
  | fresh =>
      cases started : Walk.start plan.system plan.options plan.group.base with
      | ok walk =>
          unfold pull at last ⊢
          rw [started] at last ⊢
          exact finished_of_read last
      | error error => exact ⟨_, scan_pull_of_refused started⟩
  | reading stream => exact finished_of_read last
  | finished ledger => exact ⟨ledger, rfl⟩

theorem EndedBy.exists_useAll_eq {uses : List Use} (ended : EndedBy plan uses scan) :
    ∃ ledger, useAll plan uses scan = .finished ledger := by
  obtain ⟨before, last, after, rfl, how⟩ := ended
  have spent : ∃ ledger, use plan last (useAll plan before scan) = .finished ledger := by
    cases last with
    | pull => exact finished_of_pull (how.resolve_left (by simp))
    | close =>
        cases useAll plan before scan with
        | fresh => exact ⟨_, rfl⟩
        | reading stream => exact ⟨_, rfl⟩
        | finished ledger => exact ⟨_, rfl⟩
  obtain ⟨ledger, same⟩ := spent
  refine ⟨ledger, ?_⟩
  rw [useAll, List.foldl_append, List.foldl_cons]
  change useAll plan after (use plan last (useAll plan before scan)) = _
  rw [same, useAll_finished]

theorem Kept.accounts (kept : scan.Kept plan) :
    WalkStream.Accounts plan.system plan.options plan.group.base scan.ledger scan.walk := by
  cases scan with
  | fresh => exact ⟨.none, rfl, by simp [ledger]⟩
  | reading stream => exact WalkStream.Kept.accounts kept
  | finished ledger =>
      have tracks : ledger.Tracks [] := kept
      exact ⟨.none, tracks.openPaths_eq, tracks.closings_le_one⟩

end ScanStream

/-- A walk begins with the handle on its root alone, if it lists that. Whatever is done with it, the handles
that are open are those on the directories that it is in: a row of them, from the root on, each an entry of
the one before. Every handle is closed at most once, and
all are when the walk has no item left, is closed or is left, after which nothing more comes or happens.
The same goes for a scan and the walk below its base. -/
theorem handles_released :
    (∀ (system : FileSystem) (options : WalkOptions) (root : Path) (walk : Walk),
      Walk.start system options root = .ok walk →
      (Walk.ListsRoot system options root → walk.openPaths = [root]) ∧
      (¬ Walk.ListsRoot system options root → walk.openPaths = []) ∧
      ∀ operations : List Walk.Operation,
        let stream := WalkStream.performAll system options operations (.ofWalk walk)
        let bare := Walk.performAll system options operations walk
        WalkStream.Accounts system options root stream.ledger bare ∧
        (∀ operation, (WalkStream.perform system options operation stream).1 =
          (Walk.perform system options operation bare).1) ∧
        (∀ more, stream.ledger.map Handle.path <:+
          (WalkStream.performAll system options more stream).ledger.map Handle.path) ∧
        (Walk.EndedBy system options operations walk → stream.ledger.Released ∧
          ∀ more, (WalkStream.performAll system options more stream).ledger = stream.ledger ∧
            ((WalkStream.performAll system options more stream).next system options).1 = none)) ∧
    ∀ (plan : ScanPlan) (uses : List ScanStream.Use),
      let scan := ScanStream.useAll plan uses .fresh
      WalkStream.Accounts plan.system plan.options plan.group.base scan.ledger scan.walk ∧
      (scan.pull plan).bare = scan.barePull plan ∧
      (∀ more, scan.ledger.map Handle.path <:+
        (ScanStream.useAll plan more scan).ledger.map Handle.path) ∧
      scan.close.ledger.Released ∧
      (ScanStream.EndedBy plan uses .fresh → scan.ledger.Released ∧
        ∀ more, ScanStream.useAll plan more scan = scan ∧ (scan.pull plan).result = .ok none) := by
  refine ⟨?_, ?_⟩
  · intro system options root walk started
    obtain ⟨listed, unlisted⟩ := Walk.openPaths_start started
    refine ⟨listed, unlisted, ?_⟩
    intro operations stream bare
    have kept : stream.Kept system options root := (WalkStream.kept_ofWalk started).performAll operations
    have same : stream.descent.walk = bare := by
      rw [WalkStream.walk_performAll, WalkStream.walk_ofWalk started]
    refine ⟨same ▸ kept.accounts, ?_, fun more => WalkStream.map_path_suffix_performAll more stream,
      ?_⟩
    · intro operation
      rw [← same, ← WalkStream.walk_perform]
    · intro ended
      have spent : stream.descent.walk = ⟨[], []⟩ := same.trans ended.performAll_eq
      refine ⟨(kept.tracks_nil spent).released, ?_⟩
      intro more
      obtain ⟨untouched, still⟩ := kept.performAll_ended spent more
      exact ⟨untouched, ((kept.performAll more).perform_ended still .next).1⟩
  · intro plan uses scan
    have begun : ScanStream.Kept plan .fresh := trivial
    have kept : scan.Kept plan := begun.useAll uses
    refine ⟨kept.accounts, ScanStream.bare_pull plan scan,
      fun more => ScanStream.map_path_suffix_useAll more scan, kept.tracks_close.released, ?_⟩
    intro ended
    obtain ⟨ledger, spent⟩ := ended.exists_useAll_eq
    have tracks : ledger.Tracks [] := by
      have held := kept
      rwa [show scan = .finished ledger from spent] at held
    rw [show scan = .finished ledger from spent]
    exact ⟨tracks.released, fun more => ⟨ScanStream.useAll_finished more ledger, rfl⟩⟩

/-- A walk of a root with one directory in it, closed after it was asked for an item, and the scan that
does the same: the root's handle was open from the start, and is closed. -/
theorem handles_released_one_directory :
    let system : FileSystem := ⟨Tree.empty.add [['d'], ['f']] (.file .empty), [], .root⟩
    let plan : ScanPlan := ⟨system, {}, ⟨[], [], [], false⟩, ⟨.root, .everything⟩, true⟩
    let walk : Walk := ⟨[], [⟨.root, [], 1, ⟨[['d']], none⟩⟩]⟩
    let operations : List Walk.Operation := [.next, .close]
    let final := WalkStream.performAll system {} operations (.ofWalk walk)
    Walk.start system {} .root = .ok walk ∧ (WalkStream.ofWalk walk).ledger.openPaths = [.root] ∧
      Walk.EndedBy system {} operations walk ∧ [.root] <:+ final.ledger.map Handle.path ∧
      final.ledger.Released ∧ ScanStream.EndedBy plan [.pull, .close] .fresh ∧
      (ScanStream.useAll plan [.pull, .close] .fresh).ledger.Released := by
  intro system plan walk operations final
  have started : Walk.start system {} .root = .ok walk := rfl
  have ended : Walk.EndedBy system {} operations walk :=
    ⟨[.next], .close, [], rfl, .inl (by decide)⟩
  have spent : ScanStream.EndedBy plan [.pull, .close] .fresh := ⟨[.pull], .close, [], rfl, .inl rfl⟩
  obtain ⟨walks, scans⟩ := handles_released
  obtain ⟨-, -, uses⟩ := walks system {} .root walk started
  obtain ⟨opened, -, grows, -⟩ := uses []
  obtain ⟨-, -, -, releases⟩ := uses operations
  obtain ⟨-, -, -, -, scanned⟩ := scans plan [.pull, .close]
  exact ⟨started, opened.openPaths_eq, ended, grows operations, (releases ended).1, spent,
    (scanned spent).1⟩

end PathSearch
