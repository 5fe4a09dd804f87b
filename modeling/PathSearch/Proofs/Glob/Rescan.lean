import Mathlib.Data.List.TakeWhile
import PathSearch.Proofs.Glob.Written

/-!
Braces by substitution. The first group of a text is replaced by each of its options in turn, and what comes out
is looked through again, so that inner groups and the groups behind come up later. This gives the alternatives
of the text as it is read at once, or the same complaint about its braces.
-/

namespace PathSearch.Glob

/-- The options of a group as they are written, and what stands behind the group: the text goes on inside the
group, within so many groups of an option of which this much has been passed. Nothing when the group is never
closed. -/
def scanOptions : Nat → Text → Text → Option (List Text × Text)
  | _, _, [] => none
  | depth, option, character :: rest =>
      if character = '\x7b' then scanOptions (depth + 1) (option ++ [character]) rest
      else if character = '\x7d' then
        if depth = 0 then some ([option], rest) else scanOptions (depth - 1) (option ++ [character]) rest
      else if character = ',' ∧ depth = 0 then
        (scanOptions 0 [] rest).map fun (others, behind) => (option :: others, behind)
      else scanOptions depth (option ++ [character]) rest

/-- What stands in front of the first group of a text, the options of the group, and what stands behind it. -/
def firstGroup? (text : Text) : Except Reason (Option (Text × List Text × Text)) :=
  let front := text.takeWhile (· ≠ '\x7b')
  if '\x7d' ∈ front then .error .unmatchedBrace
  else
    match text.dropWhile (· ≠ '\x7b') with
    | [] => .ok none
    | _ :: rest =>
        match scanOptions 0 [] rest with
        | none => .error .unclosedBrace
        | some (options, behind) => .ok (some (front, options, behind))

/-- The alternatives of a text by substitution, with at most so many substitutions in the result of each
other. The last step may be a complaint instead. -/
def expandWithin (pattern : Text) (levels : Nat) (text : Text) : Except Error (List Text) :=
  match firstGroup? text with
  | .ok none => .ok [text]
  | .error reason => if levels = 0 then .error .tooManyExpansions else .error (.malformed pattern reason)
  | .ok (some (front, options, behind)) =>
      match levels with
      | 0 => .error .tooManyExpansions
      | fewer + 1 => do
          let expanded ← options.mapM fun option => expandWithin pattern fewer (front ++ option ++ behind)
          return expanded.flatten.eraseDups

namespace Braced

variable {elements later : List Braced} {options : List (List Braced)} {depth : Nat}
  {character : Char} {option front behind rest text : Text} {stop : Option Reason}

section Scan

theorem scanOptions_open :
    scanOptions depth option ('\x7b' :: rest) = scanOptions (depth + 1) (option ++ ['\x7b']) rest := by
  simp [scanOptions]

theorem scanOptions_close :
    scanOptions (depth + 1) option ('\x7d' :: rest) = scanOptions depth (option ++ ['\x7d']) rest := by
  simp [scanOptions]

theorem scanOptions_char (opens : character ≠ '\x7b') (closes : character ≠ '\x7d')
    (parts : depth = 0 → character ≠ ',') :
    scanOptions depth option (character :: rest) = scanOptions depth (option ++ [character]) rest := by
  have within : ¬ (character = ',' ∧ depth = 0) := fun both => parts both.2 both.1
  rw [scanOptions, if_neg opens, if_neg closes, if_neg within]

mutual

/-- Elements of an option are passed over as a whole. -/
theorem scanOptions_text : {element : Braced} → {depth : Nat} → {option rest : Text} →
    element.Proper (depth = 0) →
      scanOptions depth option (element.text ++ rest) = scanOptions depth (option ++ element.text) rest
  | .char _, _, _, _, proper => scanOptions_char proper.1 proper.2.1 proper.2.2
  | .group options, depth, option, rest, proper => by
      rw [Braced.text, List.append_assoc, List.cons_append, scanOptions_open,
        scanOptions_textOfOptions proper.2, List.singleton_append, scanOptions_close]
      simp

theorem scanOptions_textOfAll : {elements : List Braced} → {depth : Nat} → {option rest : Text} →
    ProperAll (depth = 0) elements →
      scanOptions depth option (textOfAll elements ++ rest) =
        scanOptions depth (option ++ textOfAll elements) rest
  | [], _, _, _, _ => by simp [textOfAll]
  | _ :: _, _, _, _, proper => by
      rw [textOfAll, List.append_assoc, scanOptions_text proper.1, scanOptions_textOfAll proper.2,
        List.append_assoc]

theorem scanOptions_textOfOptions : {options : List (List Braced)} → {depth : Nat} →
    {option rest : Text} → ProperOptions options →
      scanOptions (depth + 1) option (textOfOptions options ++ rest) =
        scanOptions (depth + 1) (option ++ textOfOptions options) rest
  | [], _, _, _, _ => by simp [textOfOptions]
  | [first], depth, _, _, proper => by
      have level : ProperAll (depth + 1 = 0) first := proper.1.imp fun _ => trivial
      rw [textOfOptions, scanOptions_textOfAll level]
  | first :: _ :: _, depth, _, _, proper => by
      have level : ProperAll (depth + 1 = 0) first := proper.1.imp fun _ => trivial
      rw [textOfOptions_cons first (List.cons_ne_nil _ _), List.append_assoc,
        scanOptions_textOfAll level, List.cons_append,
        scanOptions_char (by decide) (by decide) (by simp), scanOptions_textOfOptions proper.2]
      simp

end

/-- The options of a group are found as they are written. -/
theorem scanOptions_group (proper : ProperOptions options) (some : options ≠ []) :
    scanOptions 0 [] (textOfOptions options ++ '\x7d' :: behind) =
      .some (options.map textOfAll, behind) := by
  induction options with
  | nil => exact absurd rfl some
  | cons first options ih =>
      have level : ProperAll (0 = 0) first := proper.1.imp fun _ => trivial
      cases options with
      | nil =>
          rw [textOfOptions, scanOptions_textOfAll level]
          simp [scanOptions]
      | cons second options =>
          have later := ih proper.2 (List.cons_ne_nil _ _)
          rw [textOfOptions_cons first (List.cons_ne_nil _ _), List.append_assoc,
            scanOptions_textOfAll level, List.cons_append]
          simp [scanOptions, later]

theorem scanOptions_unclosed (within : ClosesWithin depth text) : scanOptions depth option text = none := by
  induction text generalizing depth option with
  | nil => rfl
  | cons character rest ih =>
      by_cases opens : character = '\x7b'
      · subst opens
        rw [scanOptions_open]
        exact ih within.after_open
      · by_cases closes : character = '\x7d'
        · subst closes
          obtain ⟨less, rfl, fewer⟩ := within.after_close
          rw [scanOptions_close]
          exact ih fewer
        · have onward := within.after_char opens closes
          rw [scanOptions, if_neg opens, if_neg closes]
          split
          · rename_i parts
            rw [ih (parts.2 ▸ onward), Option.map_none]
          · exact ih onward

end Scan

section First

/-- Elements are characters as far as the first group. -/
theorem ProperAll.exists_first (proper : ProperAll False elements) :
    ∃ front : Text, '\x7b' ∉ front ∧ '\x7d' ∉ front ∧ (elements = front.map Braced.char ∨
      ∃ options later, elements = front.map Braced.char ++ .group options :: later) := by
  induction elements with
  | nil => exact ⟨[], by simp, by simp, .inl rfl⟩
  | cons element elements ih =>
      cases element with
      | group options => exact ⟨[], by simp, by simp, .inr ⟨options, elements, rfl⟩⟩
      | char character =>
          obtain ⟨front, opened, closed, shape⟩ := ih proper.2
          refine ⟨character :: front, ?_, ?_, ?_⟩
          · simpa using ⟨Ne.symm proper.1.1, opened⟩
          · simpa using ⟨Ne.symm proper.1.2.1, closed⟩
          · rcases shape with rfl | ⟨options, later, rfl⟩
            · exact .inl rfl
            · exact .inr ⟨options, later, rfl⟩

section Front

variable (opened : '\x7b' ∉ front)

include opened

theorem passes_front : ∀ character ∈ front, decide (character ≠ '\x7b') = true := by
  intro character held
  exact decide_eq_true fun same => opened (same ▸ held)

theorem firstGroup?_append (closed : '\x7d' ∉ front) :
    firstGroup? (front ++ '\x7b' :: rest) =
      match scanOptions 0 [] rest with
      | none => .error .unclosedBrace
      | some (options, behind) => .ok (some (front, options, behind)) := by
  rw [firstGroup?, List.takeWhile_append_of_pos (passes_front opened),
    List.dropWhile_append_of_pos (passes_front opened)]
  simp [closed]

theorem firstGroup?_unbraced (closed : '\x7d' ∉ front) : firstGroup? front = .ok none := by
  have whole := List.takeWhile_eq_self_iff.mpr (passes_front opened)
  have rest := List.dropWhile_eq_nil_iff.mpr (passes_front opened)
  rw [firstGroup?, whole, rest]
  simp [closed]

theorem firstGroup?_unmatched : firstGroup? (front ++ '\x7d' :: rest) = .error .unmatchedBrace := by
  rw [firstGroup?, List.takeWhile_append_of_pos (passes_front opened)]
  simp

end Front

/-- Where no group is left, a text stands for itself or cannot be read. -/
theorem Splits.firstGroup?_of_chars (opened : '\x7b' ∉ front) (closed : '\x7d' ∉ front)
    (splits : Splits text (front.map Braced.char) rest stop) :
    firstGroup? text = stop.elim (.ok none) .error := by
  obtain ⟨-, written, stops⟩ := splits
  rw [written, textOfAll_map_char]
  cases stops with
  | done => rw [List.append_nil, firstGroup?_unbraced opened closed, Option.elim_none]
  | unmatched => exact firstGroup?_unmatched opened
  | unclosed within => rw [firstGroup?_append opened closed, scanOptions_unclosed within, Option.elim_some]

theorem Splits.firstGroup?_of_group (opened : '\x7b' ∉ front) (closed : '\x7d' ∉ front)
    (splits : Splits text (front.map Braced.char ++ .group options :: later) rest stop) :
    firstGroup? text = .ok (some (front, options.map textOfAll, textOfAll later ++ rest)) := by
  obtain ⟨-, group, -⟩ := properAll_append.mp splits.proper
  have written : text = front ++ '\x7b' :: (textOfOptions options ++ '\x7d' :: (textOfAll later ++ rest)) := by
    rw [splits.written, textOfAll_append, textOfAll_map_char, textOfAll, Braced.text]
    simp
  rw [written, firstGroup?_append opened closed, scanOptions_group group.2 group.1]

/-- With an option in place of its group, the text is in parts again. -/
theorem Splits.replace (splits : Splits text (front.map Braced.char ++ .group options :: later) rest stop)
    {chosen : List Braced} (member : chosen ∈ options) :
    Splits (front ++ textOfAll chosen ++ (textOfAll later ++ rest))
      (front.map Braced.char ++ chosen ++ later) rest stop := by
  obtain ⟨before, group, behind⟩ := properAll_append.mp splits.proper
  have own := (properOptions_iff.mp group.2 chosen member).imp (False.elim)
  refine ⟨properAll_append.mpr ⟨properAll_append.mpr ⟨before, own⟩, behind⟩, ?_, splits.stops⟩
  rw [textOfAll_append, textOfAll_append, textOfAll_map_char, List.append_assoc]
  simp

end First

section Count

theorem expansionsOfOptions_le_iff {bound : Nat} :
    expansionsOfOptions max options ≤ bound ↔ ∀ option ∈ options, expansionsOfAll max option ≤ bound := by
  induction options with
  | nil => simp [expansionsOfOptions]
  | cons option options ih => rw [expansionsOfOptions, Nat.max_le, ih, List.forall_mem_cons]

theorem expansionsOfAll_group (choose : Nat → Nat → Nat) :
    expansionsOfAll choose (front.map Braced.char ++ .group options :: later) =
      expansionsOfOptions choose options + 1 + expansionsOfAll choose later := by
  rw [expansionsOfAll_append, expansionsOfAll_map_char, expansionsOfAll, expansions, Nat.zero_add]

theorem expansionsOfAll_replace (choose : Nat → Nat → Nat) (chosen : List Braced) :
    expansionsOfAll choose (front.map Braced.char ++ chosen ++ later) =
      expansionsOfAll choose chosen + expansionsOfAll choose later := by
  rw [expansionsOfAll_append, expansionsOfAll_append, expansionsOfAll_map_char, Nat.zero_add]

/-- The groups that are replaced on the longest way, once the first of them has been. -/
theorem expansionsOfAll_group_le_iff (some : options ≠ []) {levels : Nat} :
    expansionsOfAll max (front.map Braced.char ++ .group options :: later) ≤ levels + 1 ↔
      ∀ chosen ∈ options, expansionsOfAll max (front.map Braced.char ++ chosen ++ later) ≤ levels := by
  obtain ⟨first, others, rfl⟩ := List.exists_cons_of_ne_nil some
  rw [expansionsOfAll_group]
  simp only [expansionsOfAll_replace]
  have bound := @expansionsOfOptions_le_iff (first :: others) (levels - expansionsOfAll max later)
  constructor
  · intro few chosen member
    have within := bound.mp (by omega) chosen member
    omega
  · intro few
    have one := few first (List.mem_cons_self ..)
    have all := bound.mpr fun chosen member => by
      have within := few chosen member
      omega
    omega

end Count

section Choices

theorem choicesOfAll_append (first second : List Braced) :
    choicesOfAll (first ++ second) =
      (choicesOfAll first).flatMap fun start => (choicesOfAll second).map fun continued => start ++ continued := by
  induction first with
  | nil => simp [choicesOfAll]
  | cons element first ih =>
      simp [choicesOfAll, ih, List.flatMap_assoc, List.map_flatMap, List.flatMap_map, Function.comp_def]

theorem choicesOfOptions_eq (options : List (List Braced)) :
    choicesOfOptions options = options.flatMap choicesOfAll := by
  induction options with
  | nil => rfl
  | cons option options ih => rw [choicesOfOptions, ih, List.flatMap_cons]

/-- What a text stands for is what it stands for with one option or another in place of its first group. -/
theorem choicesOfAll_group :
    choicesOfAll (front.map Braced.char ++ .group options :: later) =
      options.flatMap fun chosen => choicesOfAll (front.map Braced.char ++ chosen ++ later) := by
  simp only [choicesOfAll_append, choicesOfAll_map_char, choicesOfAll, choices, choicesOfOptions_eq]
  simp [List.flatMap_assoc, List.map_flatMap, List.flatMap_map, Function.comp_def]

end Choices

section Expand

variable {pattern : Text} {levels : Nat}

/-- What comes of a text in parts, when so many substitutions may follow one another. -/
def expanded (pattern : Text) (levels : Nat) (elements : List Braced) :
    Option Reason → Except Error (List Text)
  | none =>
      if levels < expansionsOfAll max elements then .error .tooManyExpansions
      else .ok (choicesOfAll elements).eraseDups
  | some reason =>
      if levels < expansionsOfAll (fun first _ => first) elements + 1 then .error .tooManyExpansions
      else .error (.malformed pattern reason)

/-- One step: the options of the first group are put in its place, one after the other. -/
theorem expanded_group (nonempty : options ≠ []) :
    (do
      let results ← options.mapM fun chosen =>
        expanded pattern levels (front.map Braced.char ++ chosen ++ later) stop
      return results.flatten.eraseDups) =
      expanded pattern (levels + 1) (front.map Braced.char ++ .group options :: later) stop := by
  cases stop with
  | some reason =>
      -- Whatever the first option comes to is a failure, and no other option is looked at.
      obtain ⟨first, others, rfl⟩ := List.exists_cons_of_ne_nil nonempty
      have steps : expanded pattern (levels + 1)
          (front.map Braced.char ++ .group (first :: others) :: later) (some reason) =
            expanded pattern levels (front.map Braced.char ++ first ++ later) (some reason) := by
        have fewer : ∀ own behind : Nat, levels + 1 < own + 1 + behind + 1 ↔ levels < own + behind + 1 := by
          omega
        rw [expanded, expanded, expansionsOfAll_group, expansionsOfAll_replace, expansionsOfOptions]
        simp only [fewer]
      obtain ⟨error, failed⟩ : ∃ error, expanded pattern levels
          (front.map Braced.char ++ first ++ later) (some reason) = .error error := by
        rw [expanded]
        split <;> exact ⟨_, rfl⟩
      have all : ((first :: others).mapM fun chosen => expanded pattern levels
          (front.map Braced.char ++ chosen ++ later) (some reason)) = .error error :=
        mapM_cons_eq_error.mpr (.inl failed)
      rw [steps, failed, all]
      rfl
  | none =>
      by_cases few : expansionsOfAll max (front.map Braced.char ++ .group options :: later) ≤ levels + 1
      · have each := (expansionsOfAll_group_le_iff nonempty).mp few
        have made : ∀ chosen ∈ options,
            expanded pattern levels (front.map Braced.char ++ chosen ++ later) none =
              .ok (choicesOfAll (front.map Braced.char ++ chosen ++ later)).eraseDups :=
          fun chosen member => if_neg (Nat.not_lt.mpr (each chosen member))
        rw [mapM_eq_ok made, expanded, if_neg (Nat.not_lt.mpr few), choicesOfAll_group,
          ← eraseDups_flatMap_eraseDups]
        rfl
      · obtain ⟨chosen, member, many⟩ : ∃ chosen ∈ options,
            levels < expansionsOfAll max (front.map Braced.char ++ chosen ++ later) := by
          simpa [expansionsOfAll_group_le_iff nonempty] using few
        have alike : ∀ chosen ∈ options, ∀ other,
            expanded pattern levels (front.map Braced.char ++ chosen ++ later) none = .error other →
              other = .tooManyExpansions := by
          intro chosen member other failed
          rw [expanded] at failed
          split at failed
          · exact (Except.error.inj failed).symm
          · cases failed
        rw [mapM_eq_error alike member (if_pos many), expanded, if_pos (Nat.lt_of_not_le few)]
        rfl

/-- Without a group, nothing is left to be put in a place. -/
theorem expandWithin_of_chars (opened : '\x7b' ∉ front) (closed : '\x7d' ∉ front)
    (splits : Splits text (front.map Braced.char) rest stop) :
    expandWithin pattern levels text = expanded pattern levels (front.map Braced.char) stop := by
  rw [expandWithin, splits.firstGroup?_of_chars opened closed]
  cases stop with
  | none =>
      obtain ⟨-, written, stops⟩ := splits
      cases stops
      rw [expanded, expansionsOfAll_map_char, choicesOfAll_map_char, if_neg (Nat.not_lt_zero _), written,
        textOfAll_map_char, List.append_nil]
      rfl
  | some reason =>
      rw [expanded, expansionsOfAll_map_char, Option.elim_some]
      simp only [Nat.zero_add, Nat.lt_one_iff]

/-- Substitution comes to what the text in parts stands for. -/
theorem expandWithin_eq (splits : Splits text elements rest stop) :
    expandWithin pattern levels text = expanded pattern levels elements stop := by
  induction levels generalizing text elements with
  | zero =>
      obtain ⟨front, opened, closed, rfl | ⟨options, later, rfl⟩⟩ := splits.proper.exists_first
      · exact expandWithin_of_chars opened closed splits
      · rw [expandWithin, splits.firstGroup?_of_group opened closed]
        cases stop with
        | none => rw [expanded, expansionsOfAll_group, if_pos (by omega)]
        | some reason => rw [expanded, expansionsOfAll_group, if_pos (by omega)]
  | succ levels ih =>
      obtain ⟨front, opened, closed, rfl | ⟨options, later, rfl⟩⟩ := splits.proper.exists_first
      · exact expandWithin_of_chars opened closed splits
      · obtain ⟨-, group, -⟩ := properAll_append.mp splits.proper
        have onward : ∀ chosen ∈ options,
            expandWithin pattern levels (front ++ textOfAll chosen ++ (textOfAll later ++ rest)) =
              expanded pattern levels (front.map Braced.char ++ chosen ++ later) stop :=
          fun chosen member => ih (splits.replace member)
        rw [expandWithin, splits.firstGroup?_of_group opened closed, ← expanded_group group.1,
          ← mapM_congr onward]
        simp only [List.mapM_map, Function.comp_def]

end Expand

end Braced

/-- Substitution finds the alternatives of a text, or what is wrong with it, as long as it may go on. -/
theorem expandWithin_eq_alternatives (pattern : Text) (levels : Nat) (text : Text) :
    expandWithin pattern levels text =
      if levels < groupExpansions text then .error .tooManyExpansions
      else (alternatives text).mapError (.malformed pattern) := by
  obtain ⟨elements, rest, stop, splits⟩ := Braced.exists_splits text
  rw [Braced.expandWithin_eq splits, groupExpansions, alternatives, splits.read_eq]
  cases stop <;> rfl

/-- Compiling a pattern begins with a substitution of its groups. -/
theorem compile_eq_expandWithin {pattern : Text} (nonempty : trimmed pattern ≠ []) :
    compile pattern = do
      let globs ← expandWithin pattern expansionLimit (trimmed pattern)
      let forms ← globs.mapM (formsOf pattern)
      return .compiled (trimmed pattern) forms.flatten := by
  rw [expandWithin_eq_alternatives]
  simp only [compile, if_neg nonempty]
  split <;> rfl

end PathSearch.Glob
