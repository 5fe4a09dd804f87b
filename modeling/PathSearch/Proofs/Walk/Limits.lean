import Mathlib.Data.List.Basic
import PathSearch.Proofs.Walk.Recursion

/-!
Walks of one root that differ in how deep they go and in what they report. The regular files of each are those
that a walk without a limit comes to within its limit.
-/

namespace PathSearch

/-- An entry that is a regular file. -/
def WalkItem.isRegular : WalkItem → Bool
  | .entry _ isRegularFile => isRegularFile
  | .failure _ _ => false

theorem WalkItem.isRegular_eq_true {item : WalkItem} :
    item.isRegular = true ↔ item = .entry item.path true := by
  cases item with
  | entry path kind => simp [isRegular, WalkItem.path]
  | failure path error => simp [isRegular]

/-- Whether entries so many names below the root are within the depth limit. -/
def WalkOptions.reaches (options : WalkOptions) (depth : Nat) : Bool :=
  match options.maxDepth with
  | none => true
  | some limit => depth ≤ limit

/-- The item is a regular file within the depth limit of a walk from the root. -/
def WalkOptions.keeps (options : WalkOptions) (root : Path) (item : WalkItem) : Bool :=
  item.isRegular && options.reaches (item.path.names.length - root.names.length)

theorem WalkOptions.keeps_iff {options : WalkOptions} {root : Path} {item : WalkItem} :
    options.keeps root item = true ↔ item = .entry item.path true ∧
      options.reaches (item.path.names.length - root.names.length) = true := by
  rw [keeps, Bool.and_eq_true, WalkItem.isRegular_eq_true]

theorem WalkOptions.reaches_mono {options : WalkOptions} {depth deeper : Nat} (less : depth ≤ deeper)
    (reached : options.reaches deeper = true) : options.reaches depth = true := by
  unfold reaches at reached ⊢
  split
  · rfl
  · simp_all
    omega

theorem WalkOptions.descendsBelow_eq (options : WalkOptions) (depth : Nat) :
    options.descendsBelow depth = options.reaches (depth + 1) := by
  unfold descendsBelow reaches
  cases options.maxDepth with
  | none => rfl
  | some limit =>
      rw [decide_eq_decide]
      omega

namespace Walk

variable {system : FileSystem} {narrow wide options : WalkOptions} {root : Path} {walk whole : Walk}
  {frame : Frame} {above : List Location} {name : Text} {item : WalkItem}

theorem regular_breakage (frame : Frame) : frame.breakage.filter WalkItem.isRegular = [] := by
  unfold Frame.breakage
  split <;> rfl

theorem regular_itemsOf (options : WalkOptions) (path : Path) (kind : Bool) :
    (itemsOf options path kind).filter WalkItem.isRegular = if kind then [.entry path true] else [] := by
  cases kind with
  | true => rfl
  | false =>
      unfold itemsOf
      split <;> rfl

/-- Whether an entry is reported as a regular file depends on its kind alone. -/
theorem regular_visit (system : FileSystem) (options : WalkOptions) (frame : Frame)
    (above : List Location) (name : Text) :
    (visit system options frame above name).1.filter WalkItem.isRegular =
      match system.entryKind options.followLinks frame.path frame.location name with
      | .ok .file => [.entry (frame.path ++ Path.ofText name) true]
      | _ => [] := by
  have visits := visits_visit system options frame above name
  generalize visit system options frame above name = result at visits
  cases visits with
  | unknown unknown => simp [unknown, WalkItem.isRegular]
  | @leaf isRegularFile kind =>
      rw [regular_itemsOf, kind]
      cases isRegularFile <;> simp
  | shallow kind => simp [kind, regular_itemsOf]
  | hidden kind => simp [kind, WalkItem.isRegular]
  | circular kind => simp [kind, WalkItem.isRegular]
  | closed kind => simp [kind, regular_itemsOf, WalkItem.isRegular]
  | entered kind => simp [kind, regular_itemsOf]

theorem keeps_breakage (options : WalkOptions) (root : Path) (frame : Frame) :
    frame.breakage.filter (options.keeps root) = [] := by
  rw [List.filter_eq_nil_iff]
  intro item reported kept
  rw [(WalkOptions.keeps_iff.mp kept).1] at reported
  exact not_mem_breakage reported

/-- What lies in a directory at the limit lies beyond the limit. -/
theorem filter_beyond_limit (opened : Opens system wide root frame above)
    (beyond : ¬ narrow.reaches (above.length + 1) = true) :
    (directoryItems system wide frame above).filter (narrow.keeps root) = [] := by
  rw [List.filter_eq_nil_iff]
  intro item reported kept
  obtain ⟨regular, reached⟩ := WalkOptions.keeps_iff.mp kept
  rw [regular] at reported
  have longer := length_lt_of_mem_directoryItems opened reported
  rw [opened.length_eq] at longer
  exact beyond (WalkOptions.reaches_mono (by omega) reached)

section Compared

variable (alike : narrow.followLinks = wide.followLinks) (unlimited : wide.maxDepth = none)

include alike unlimited

/-- Within its limit a walk goes into the same directories as one without a limit. -/
theorem onward_visit (frame : Frame) (above : List Location) (name : Text) :
    (visit system narrow frame above name).2 =
      if narrow.descendsBelow frame.depth then (visit system wide frame above name).2 else none := by
  have deep : wide.descendsBelow frame.depth = true := by
    rw [WalkOptions.descendsBelow, unlimited]
  unfold visit
  simp only [alike, deep, if_true]
  cases system.entryKind wide.followLinks frame.path frame.location name with
  | error cause => simp
  | ok kind =>
      cases kind with
      | file => simp
      | neither => simp
      | dir location =>
          cases narrow.descendsBelow frame.depth with
          | false => rfl
          | true =>
              simp only [if_true]
              cases if wide.followLinks then system.guard .status location else .ok () with
              | error cause => rfl
              | ok _ =>
                  simp only
                  split
                  · rfl
                  · cases system.listAt location <;> rfl

/-- The regular files of an item list that lie within the limit of a walk from the root. -/
theorem filter_entryItems (opened : Opens system wide root frame above)
    (member : name ∈ frame.listing.names) (within : narrow.reaches (above.length + 1) = true)
    (deeper : ∀ inner, (visit system wide frame above name).2 = some inner →
      narrow.reaches (above.length + 2) = true →
        (directoryItems system narrow inner (frame.location :: above)).filter WalkItem.isRegular =
          (directoryItems system wide inner (frame.location :: above)).filter (narrow.keeps root)) :
    (entryItems system narrow frame above name).filter WalkItem.isRegular =
      (entryItems system wide frame above name).filter (narrow.keeps root) := by
  have named := opened.isEntryName member
  have place : (frame.path ++ Path.ofText name).names.length =
      root.names.length + (above.length + 1) := by
    rw [Path.length_names_append _ named, opened.length_eq, Nat.add_assoc]
  have own : (visit system narrow frame above name).1.filter WalkItem.isRegular =
      (visit system wide frame above name).1.filter (narrow.keeps root) := by
    rw [regular_visit, alike, ← regular_visit]
    refine List.filter_congr fun item reported => ?_
    rw [WalkOptions.keeps, path_of_mem_visit reported, place, Nat.add_sub_cancel_left, within,
      Bool.and_true]
  have onward := @onward_visit system narrow wide alike unlimited frame above name
  rw [opened.depth_eq, WalkOptions.descendsBelow_eq] at onward
  cases entered : (visit system wide frame above name).2 with
  | none =>
      rw [entered, ite_self] at onward
      rw [entryItems_of_none onward, entryItems_of_none entered, own]
  | some inner =>
      have enters := enters_of_visit entered
      have around := opened.entry member enters
      rw [entered] at onward
      rw [entryItems_of_some entered, List.filter_append, ← own]
      by_cases further : narrow.reaches (above.length + 2) = true
      · rw [if_pos further] at onward
        rw [entryItems_of_some onward, List.filter_append, deeper inner entered further]
      · rw [if_neg further] at onward
        rw [entryItems_of_none onward, filter_beyond_limit around further, List.append_nil]

/-- Of a directory within its limit the walk reports those regular files that the walk without a limit
reports and that are within the limit too. -/
theorem filter_directoryItems (opened : Opens system wide root frame above)
    (within : narrow.reaches (above.length + 1) = true) :
    (directoryItems system narrow frame above).filter WalkItem.isRegular =
      (directoryItems system wide frame above).filter (narrow.keeps root) := by
  induction frame, above using directoryItems.induct system wide with
  | case1 frame above ih =>
      rw [directoryItems_eq, directoryItems_eq, List.filter_append, List.filter_append, keeps_breakage,
        regular_breakage, List.filter_flatMap, List.filter_flatMap]
      congr 1
      refine List.flatMap_congr fun name member => ?_
      refine filter_entryItems alike unlimited opened member within ?_
      intro inner entered further
      exact ih name inner entered (opened.entry member (enters_of_visit entered)) further

/-- Where a walk without a limit starts, one with a limit does, and of the regular files it reports those
within its limit. -/
theorem exists_start_filter (reached : narrow.reaches 0 = true)
    (started : start system wide root = .ok whole) :
    ∃ walk, start system narrow root = .ok walk ∧
      (toList system narrow walk).filter WalkItem.isRegular =
        (toList system wide whole).filter (narrow.keeps root) := by
  have bare : ∀ kind, (itemsOf narrow root kind).filter WalkItem.isRegular =
      (itemsOf wide root kind).filter (narrow.keeps root) := by
    intro kind
    rw [regular_itemsOf, ← regular_itemsOf wide]
    refine List.filter_congr fun item member => ?_
    rw [WalkOptions.keeps, itemsOf_path member, WalkItem.path, Nat.sub_self, reached, Bool.and_true]
  have starts := starts_start system wide root
  rw [started] at starts
  cases starts with
  | file found =>
      refine ⟨_, (Starts.file found).start_eq, ?_⟩
      rw [toList_bare, toList_bare, bare]
  | other found directory file =>
      refine ⟨_, (Starts.other found directory file).start_eq, ?_⟩
      rw [toList_bare, toList_bare, bare]
  | shallow found shallow =>
      rw [WalkOptions.descendsBelow, unlimited] at shallow
      cases shallow
  | opened found deep listed =>
      have opened := Opens.root found deep listed
      have onward := WalkOptions.descendsBelow_eq narrow 0
      rw [toList_append, toList_directory, toList_ended, List.map_nil, List.append_nil,
        List.filter_append, ← bare]
      by_cases further : narrow.reaches 1 = true
      · refine ⟨_, (Starts.opened found (onward.trans further) listed).start_eq, ?_⟩
        rw [toList_append, toList_directory, toList_ended, List.map_nil, List.append_nil,
          List.filter_append, filter_directoryItems alike unlimited opened further]
      · refine ⟨_, (Starts.shallow found (onward.trans (by simpa using further))).start_eq, ?_⟩
        rw [toList_bare, filter_beyond_limit opened further, List.append_nil]

end Compared

/-- The regular files that a walk with a limit reports are those that the walk without one reports and that
lie within the limit, in the same order. A walk that goes as deep or deeper, and that may report other
entries too, reports all of them. -/
theorem regular_within_limit {limit : Nat} {onlyFiles followLinks : Bool}
    (started : start system ⟨none, false, followLinks⟩ root = .ok whole) :
    ∃ walk, start system ⟨some limit, onlyFiles, followLinks⟩ root = .ok walk ∧
      (toList system ⟨some limit, onlyFiles, followLinks⟩ walk).filter WalkItem.isRegular =
        (toList system ⟨none, false, followLinks⟩ whole).filter (fun item =>
          item.isRegular && item.path.names.length ≤ root.names.length + limit) ∧
      ∀ more : WalkOptions, more.followLinks = followLinks →
        (∀ bound, more.maxDepth = some bound → (limit : Int) ≤ bound) →
        ∃ further, start system more root = .ok further ∧
          ((toList system ⟨some limit, onlyFiles, followLinks⟩ walk).filter WalkItem.isRegular).Sublist
            ((toList system more further).filter WalkItem.isRegular) := by
  let narrow : WalkOptions := ⟨some limit, onlyFiles, followLinks⟩
  have reached : narrow.reaches 0 = true := decide_eq_true (Int.natCast_nonneg limit)
  have shorter : narrow.keeps root = fun item =>
      item.isRegular && item.path.names.length ≤ root.names.length + limit := by
    funext item
    rw [WalkOptions.keeps, WalkOptions.reaches]
    congr 1
    rw [decide_eq_decide]
    omega
  obtain ⟨walk, narrowStarted, within⟩ :=
    @exists_start_filter system narrow ⟨none, false, followLinks⟩ root whole rfl rfl reached started
  refine ⟨walk, narrowStarted, within.trans (by rw [shorter]), ?_⟩
  intro more alike deeper
  have allowed : ∀ depth, narrow.reaches depth = true → more.reaches depth = true := by
    intro depth reached
    have less := of_decide_eq_true reached
    unfold WalkOptions.reaches
    cases limited : more.maxDepth with
    | none => rfl
    | some bound =>
        have wider := deeper bound limited
        exact decide_eq_true (by omega)
  obtain ⟨further, startedToo, withinToo⟩ :=
    @exists_start_filter system more ⟨none, false, followLinks⟩ root whole alike rfl
      (allowed 0 reached) started
  refine ⟨further, startedToo, ?_⟩
  rw [within, withinToo]
  refine List.monotone_filter_right _ fun item kept => ?_
  obtain ⟨regular, near⟩ := WalkOptions.keeps_iff.mp kept
  exact WalkOptions.keeps_iff.mpr ⟨regular, allowed _ near⟩

/-- The directory `d` holds a file, a directory with another file, and a link back to the root, and its
listing breaks off behind them. With a limit of two names the outer file remains. -/
theorem regular_within_limit_two :
    let tree := ((Tree.empty.add [['d'], ['f']] (.file .empty)).add [['d'], ['e'], ['g']]
      (.file .empty)).add [['d'], ['l']] (.link ['.', '.'])
    let system : FileSystem := ⟨tree, [⟨.iterate 3, [['d']], .inputOutput⟩], .root⟩
    let directory := Path.root ++ Path.ofText ['d']
    let outer : WalkItem := .entry (directory ++ Path.ofText ['f']) true
    let inner : WalkItem := .entry (directory ++ Path.ofText ['e'] ++ Path.ofText ['g']) true
    ∃ whole walk, start system ⟨none, false, true⟩ .root = .ok whole ∧
      (toList system ⟨none, false, true⟩ whole).filter WalkItem.isRegular = [outer, inner] ∧
      start system ⟨some 2, true, true⟩ .root = .ok walk ∧
      (toList system ⟨some 2, true, true⟩ walk).filter WalkItem.isRegular = [outer] := by
  intro tree system directory outer inner
  have started : start system ⟨none, false, true⟩ .root =
      .ok ⟨[.entry .root false], [⟨.root, [], 1, ⟨[['d']], none⟩⟩]⟩ := rfl
  have given : rootItems system ⟨none, false, true⟩ .root = .ok
      [.entry .root false, .entry directory false, outer,
        .entry (directory ++ Path.ofText ['e']) false, inner,
        .failure (directory ++ Path.ofText ['l'])
          ⟨.linkLoop, some (directory ++ Path.ofText ['l']).text⟩,
        .failure directory ⟨.inputOutput, some directory.text⟩] := by decide +kernel
  have items := (rootItems_eq system ⟨none, false, true⟩ .root).symm.trans given
  rw [started] at items
  have listed := Except.ok.inj items
  obtain ⟨walk, narrowStarted, within, -⟩ :=
    @regular_within_limit system .root _ 2 true true started
  exact ⟨_, walk, started, congrArg _ listed, narrowStarted,
    within.trans (congrArg (List.filter _) listed)⟩

end Walk

end PathSearch
