import PathSearch.Proofs.Glob.Rescan

/-!
The texts that a text with braces stands for: every group gives way to one of its options, in all ways there
are. Substituting one group after the other finds them, within the limit on substitutions.
-/

namespace PathSearch.Glob

namespace Braced

variable {elements : List Braced} {text : Text}

/-- What elements come to when every group gives way to one of its options, with one option for every group
inside it. -/
inductive Chooses : List Braced → Text → Prop where
  | nil : Chooses [] []
  | char {rest : List Braced} {text : Text} (character : Char) (later : Chooses rest text) :
      Chooses (.char character :: rest) (character :: text)
  | group {options : List (List Braced)} {option rest : List Braced} {start text : Text}
      (member : option ∈ options) (own : Chooses option start) (later : Chooses rest text) :
      Chooses (.group options :: rest) (start ++ text)

theorem mem_choicesOfAll_of_chooses {choice : Text} (chooses : Chooses elements choice) :
    choice ∈ choicesOfAll elements := by
  induction chooses with
  | nil => exact List.mem_singleton.mpr rfl
  | char character _ later => simp [choicesOfAll, choices, later]
  | group member _ _ own later =>
      simp only [choicesOfAll, choices, List.mem_flatMap, List.mem_map]
      exact ⟨_, mem_choicesOfOptions.mpr ⟨_, member, own⟩, _, later, rfl⟩

mutual

theorem chooses_of_mem_choices : {element : Braced} → {rest : List Braced} → {start text : Text} →
    start ∈ element.choices → Chooses rest text → Chooses (element :: rest) (start ++ text)
  | .char character, _, _, _, chosen, later => by
      obtain rfl := List.mem_singleton.mp chosen
      exact .char character later
  | .group _, _, _, _, chosen, later => by
      obtain ⟨option, member, own⟩ := chooses_of_mem_options chosen
      exact .group member own later

theorem chooses_of_mem_choicesOfAll : {elements : List Braced} → {choice : Text} →
    choice ∈ choicesOfAll elements → Chooses elements choice
  | [], _, chosen => by
      obtain rfl := List.mem_singleton.mp chosen
      exact .nil
  | _ :: _, _, chosen => by
      simp only [choicesOfAll, List.mem_flatMap, List.mem_map] at chosen
      obtain ⟨start, first, text, second, rfl⟩ := chosen
      exact chooses_of_mem_choices first (chooses_of_mem_choicesOfAll second)

theorem chooses_of_mem_options : {options : List (List Braced)} → {choice : Text} →
    choice ∈ choicesOfOptions options → ∃ option ∈ options, Chooses option choice
  | [], _, chosen => by cases chosen
  | option :: _, _, chosen => by
      rcases List.mem_append.mp chosen with first | later
      · exact ⟨option, List.mem_cons_self .., chooses_of_mem_choicesOfAll first⟩
      · obtain ⟨other, member, own⟩ := chooses_of_mem_options later
        exact ⟨other, List.mem_cons_of_mem _ member, own⟩

end

/-- A text that can be read in one way only, and the texts that it stands for: without braces, each once, in
the order of the choices from left to right. -/
structure ExpandsTo (text : Text) (elements : List Braced) (globs : List Text) : Prop where
  proper : ProperAll False elements
  written : textOfAll elements = text
  unique : ∀ other, ProperAll False other → textOfAll other = text → other = elements
  ordered : globs = (choicesOfAll elements).eraseDups
  distinct : globs.Nodup
  chosen : ∀ glob, glob ∈ globs ↔ Chooses elements glob
  unbraced : ∀ glob ∈ globs, '\x7b' ∉ glob ∧ '\x7d' ∉ glob

theorem ProperAll.splits (proper : ProperAll False elements) :
    Splits (textOfAll elements) elements [] none where
  proper := proper
  written := (List.append_nil _).symm
  stops := .done

theorem isBalanced_iff_read : IsBalanced text ↔ ∃ elements, read text = .ok elements := by
  obtain ⟨elements, rest, stop, splits⟩ := exists_splits text
  rw [splits.isBalanced_iff, splits.read_eq]
  cases stop <;> simp

theorem expandsTo_of_read (reads : read text = .ok elements) :
    ExpandsTo text elements (choicesOfAll elements).eraseDups := by
  obtain ⟨found, rest, stop, splits⟩ := exists_splits text
  have same := splits.read_eq
  rw [reads] at same
  cases stop with
  | some reason => cases same
  | none =>
      obtain rfl := Except.ok.inj same
      obtain ⟨proper, written, stops⟩ := splits
      cases stops
      rw [List.append_nil] at written
      refine ⟨proper, written.symm, ?_, rfl, nodup_eraseDups _, ?_, ?_⟩
      · rintro other properly rfl
        exact Except.ok.inj (properly.splits.read_eq.symm.trans reads)
      · intro glob
        rw [List.mem_eraseDups]
        exact ⟨chooses_of_mem_choicesOfAll, mem_choicesOfAll_of_chooses⟩
      · intro glob member
        rw [List.mem_eraseDups] at member
        exact ⟨fun held => (mem_of_mem_choice reads member held).2.1 rfl,
          fun held => (mem_of_mem_choice reads member held).2.2 rfl⟩

end Braced

/-- Within the limit, substitution complains about the braces of a text exactly when they are not balanced, and
otherwise gives the texts that it stands for. Beyond the limit it gives nothing. -/
theorem expandWithin_balanced (pattern text : Text) :
    (expansionLimit < groupExpansions text →
      expandWithin pattern expansionLimit text = .error .tooManyExpansions) ∧
    (groupExpansions text ≤ expansionLimit →
      expandWithin pattern expansionLimit text = (alternatives text).mapError (.malformed pattern) ∧
      ((∃ reason, expandWithin pattern expansionLimit text = .error (.malformed pattern reason)) ↔
        ¬ IsBalanced text) ∧
      (IsBalanced text → ∃ elements globs, expandWithin pattern expansionLimit text = .ok globs ∧
        Braced.ExpandsTo text elements globs)) := by
  have whole := expandWithin_eq_alternatives pattern expansionLimit text
  constructor
  · intro many
    rw [whole, if_pos many]
  · intro few
    rw [if_neg (Nat.not_lt.mpr few)] at whole
    refine ⟨whole, ?_⟩
    rw [whole, Braced.isBalanced_iff_read, alternatives]
    cases reads : Braced.read text with
    | error imbalance =>
        refine ⟨iff_of_true ⟨imbalance.reason, rfl⟩ (by simp), fun balanced => ?_⟩
        obtain ⟨elements, impossible⟩ := balanced
        cases impossible
    | ok elements =>
        refine ⟨iff_of_false (fun failed => ?_) (by simp), fun _ => ?_⟩
        · obtain ⟨reason, impossible⟩ := failed
          cases impossible
        · exact ⟨elements, _, rfl, Braced.expandsTo_of_read reads⟩

/-- A comma outside of all groups stands for itself, groups stand in a row and inside each other, an option
may be empty, and one text comes out twice. -/
theorem expandWithin_balanced_nested :
    let text := "x\x7ba,\x7bb,c\x7d\x7b,d\x7d,b\x7d,\x7b\x7d".toList
    let globs := ["xa,", "xb,", "xbd,", "xc,", "xcd,"].map String.toList
    groupExpansions text ≤ expansionLimit ∧ IsBalanced text ∧
      expandWithin text expansionLimit text = .ok globs ∧
        ∃ elements, Braced.ExpandsTo text elements globs := by
  intro text globs
  have few : groupExpansions text ≤ expansionLimit := by decide +kernel
  obtain ⟨elements, reads⟩ : ∃ elements, Braced.read text = .ok elements ∧
      (Braced.choicesOfAll elements).eraseDups = globs := ⟨_, rfl, by decide +kernel⟩
  obtain ⟨-, -, all⟩ := (expandWithin_balanced text text).2 few
  have balanced := Braced.isBalanced_iff_read.mpr ⟨elements, reads.1⟩
  obtain ⟨others, found, expanded, expands⟩ := all balanced
  have whole := Braced.expandsTo_of_read reads.1
  obtain rfl : others = elements := whole.unique _ expands.proper expands.written
  obtain rfl : found = globs := expands.ordered.trans reads.2
  exact ⟨few, balanced, expanded, _, expands⟩

section Row

variable (count : Nat)

/-- Groups of one option in a row. -/
def groupRow : List Braced := List.replicate count (.group [[.char 'a']])

theorem properAll_groupRow : Braced.ProperAll False (groupRow count) := by
  rw [Braced.properAll_iff]
  intro element member
  rw [List.eq_of_mem_replicate member]
  simp [Braced.Proper, Braced.ProperOptions, Braced.ProperAll]

theorem expansionsOfAll_groupRow (choose : Nat → Nat → Nat) (zero : choose 0 0 = 0) :
    Braced.expansionsOfAll choose (groupRow count) = count := by
  induction count with
  | zero => rfl
  | succ count ih =>
      rw [groupRow, List.replicate_succ, Braced.expansionsOfAll, ← groupRow, ih]
      simp [Braced.expansions, Braced.expansionsOfOptions, Braced.expansionsOfAll, zero]
      omega

/-- The braces of a text in a long row of groups are balanced, and yet nothing comes out. -/
theorem not_expandWithin_groupRow :
    let text := Braced.textOfAll (groupRow 1500)
    IsBalanced text ∧ ¬ ∃ globs, expandWithin text expansionLimit text = .ok globs := by
  intro text
  have proper := properAll_groupRow 1500
  refine ⟨proper.isBalanced, fun found => ?_⟩
  obtain ⟨globs, expanded⟩ := found
  have many : expansionLimit < groupExpansions text := by
    rw [groupExpansions, proper.splits.read_eq]
    exact Nat.lt_of_lt_of_eq (by decide) (expansionsOfAll_groupRow 1500 max rfl).symm
  rw [expandWithin_eq_alternatives, if_pos many] at expanded
  cases expanded

end Row

end PathSearch.Glob
