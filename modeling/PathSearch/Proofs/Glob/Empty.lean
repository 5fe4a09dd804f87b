import PathSearch.Proofs.Glob.Ends
import PathSearch.Proofs.Glob.Prefix

/-!
No pattern accepts the empty text, which is what a matcher sees of the root and of the directory one is in:
the last segment of a line is never empty, and every segment behind another one brings a slash.
-/

namespace PathSearch.Glob

/-- Two stars in a row stand alone in every segment. -/
def IsSpread (segments : List Text) : Prop :=
  ∀ segment ∈ segments, segment = globstar ∨ crosses segment = false

section Lines

variable {glob one : Text} {segments : List Text}

theorem split_of_mem_expandStars (expanded : one ∈ expandStars glob) :
    one.split '/' ∈ spreadAll (glob.split '/') ∧ IsSpread (one.split '/') := by
  obtain ⟨chosen, member, rfl⟩ := mem_expandStars.mp expanded
  have parts : ∀ segment ∈ chosen, '/' ∉ segment ∧ (segment = globstar ∨ crosses segment = false) := by
    refine forall_mem_of_mem_spreadAll ?_ member
    intro segment held start first piece within
    obtain ⟨apart, inside, -⟩ := parts_of_mem_spread first within
    exact ⟨fun slash => Text.separator_notMem_of_mem_split held (inside _ slash), apart⟩
  have some := mt (eq_nil_iff_of_mem_spreadAll member).mp (Text.split_ne_nil '/' glob)
  rw [Text.split_join some fun segment held => (parts segment held).1]
  exact ⟨member, fun segment held => (parts segment held).2⟩

/-- The blanks at the end of a segment hide no stars. -/
theorem isSpread_of_append {tail : Text} (blank : ∀ character ∈ tail, Text.isBlank character = true)
    (text : Text) (spread : IsSpread ((text ++ tail).split '/')) : IsSpread (text.split '/') := by
  have clear : '/' ∉ tail := Text.notMem_of_isBlank blank (by decide)
  have starless : '*' ∉ tail := Text.notMem_of_isBlank blank (by decide)
  obtain ⟨before, last, alone, longer⟩ := Text.exists_split_append clear text
  rw [IsSpread, longer, List.forall_mem_append, List.forall_mem_singleton, crosses_append starless] at spread
  rw [IsSpread, alone, List.forall_mem_append, List.forall_mem_singleton]
  refine ⟨spread.1, ?_⟩
  by_cases none : tail = []
  · simpa [none] using spread.2
  · exact .inr (spread.2.resolve_left (append_ne_globstar starless none))

theorem exists_last_of_line (spread : IsSpread (one.split '/')) :
    ∃ before last isDirectory, lineSegments (anchoredLine one) = (before ++ [last], isDirectory) ∧
      IsApart last := by
  obtain ⟨body, tail, line, blank, shape⟩ := exists_anchoredLine one
  have inner : IsSpread (body.split '/') := by
    refine isSpread_of_append blank body ?_
    rcases shape with rfl | rfl
    · exact spread
    · rw [IsSpread, Text.split, if_pos rfl, List.forall_mem_cons] at spread
      exact spread.2
  obtain ⟨before, last, split⟩ :=
    (List.eq_nil_or_concat (body.split '/')).resolve_left (Text.split_ne_nil '/' body)
  rw [List.concat_eq_append] at split
  rw [line, lineSegments_of_split split]
  refine ⟨before, _, _, rfl, ?_⟩
  by_cases ended : last = []
  · rw [if_pos ended]
    exact ⟨by decide, .inl rfl⟩
  · rw [if_neg ended]
    exact ⟨ended, inner last (by simp [split])⟩

end Lines

/-- Behind a first segment, there is at least the slash in front of the next one. -/
theorem not_fits_behind_nil {slash : Bool} {first next : Text} {rest : List Text} :
    ¬ Fits (coveringFrom? slash (first :: next :: rest)) [] := by
  intro fits
  have behind : ¬ Fits (coveringFrom? true (next :: rest)) [] := by
    intro fits
    obtain ⟨beyond, same⟩ := exists_slash_of_fits (by simp) fits
    cases same
  by_cases across : first = globstar
  · subst across
    obtain ⟨crossed, beyond, same, -, later⟩ := fits_globstar.mp fits
    obtain ⟨-, rfl⟩ := List.append_eq_nil_iff.mp same.symm
    exact behind later
  · obtain ⟨pieces, name, beyond, -, same, -, later⟩ := (fits_segment across).mp fits
    obtain ⟨-, rfl⟩ := List.append_eq_nil_iff.mp same.symm
    exact behind later

/-- A last segment asks for a name, and any other for the segment behind it. -/
theorem not_fits_row_nil {first last : Text} {rest : List Text} (other : first ≠ globstar)
    (apart : IsApart last) (ends : (first :: rest).getLast? = some last) :
    ¬ Fits (coveringFrom? false (first :: rest)) [] := by
  cases rest with
  | nil =>
      obtain rfl : first = last := by simpa using ends
      exact apart.not_fits_nil other
  | cons next rest => exact not_fits_behind_nil

theorem not_fits_formOf?_nil {glob one : Text} (expanded : one ∈ expandStars glob) :
    ¬ Fits (formOf? one) [] := by
  obtain ⟨before, last, isDirectory, line, apart⟩ :=
    exists_last_of_line (split_of_mem_expandStars expanded).2
  have ends := getLast?_mergeGlobstars (before ++ [last])
  rw [List.getLast?_concat] at ends
  simp only [formOf?, line]
  by_cases alone : mergeGlobstars (before ++ [last]) = [globstar]
  · rw [if_pos alone, fits_some]
    cases isDirectory with
    | false => simp [Form.accepts]
    | true => simp [Form.accepts]
  · rw [if_neg alone]
    split
    · simp [fits_some, Form.accepts]
    · split
      · simp [fits_some, Form.accepts]
      · rcases mergeGlobstars_cases (by simp) alone with
          ⟨first, rest, shape, other⟩ | ⟨next, rest, shape, other⟩
        · rw [shape] at ends ⊢
          rw [covering?_of_ne other]
          exact not_fits_row_nil other apart ends
        · rw [shape] at ends ⊢
          rw [fits_above]
          intro found
          obtain ⟨crossed, beyond, same, -, fits⟩ := found
          obtain ⟨-, rfl⟩ := List.append_eq_nil_iff.mp same.symm
          exact not_fits_row_nil other apart (by simpa using ends) fits

/-- A pattern does not match the root. -/
theorem acceptsText_of_subject_eq_nil {pattern text : Text} {matcher : Matcher}
    (compiled : compile pattern = .ok matcher) (empty : subject text = []) :
    matcher.acceptsText text = false := by
  refine Bool.eq_false_iff.mpr fun accepted => ?_
  obtain ⟨-, -, globs, -, split, -⟩ := compile_eq_ok.mp compiled
  obtain ⟨glob, -, one, expanded, fits⟩ := (acceptsText_iff_of_compile compiled split).mp accepted
  exact not_fits_formOf?_nil expanded (empty ▸ fits)

end PathSearch.Glob
