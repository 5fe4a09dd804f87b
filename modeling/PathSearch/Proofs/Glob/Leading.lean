import PathSearch.Proofs.Glob.Alternatives
import PathSearch.Proofs.Glob.Empty
import PathSearch.Proofs.Glob.Levels

/-!
A globstar in front of a relative glob. Depending on what follows, the line has a form of its own, or it has
the form of the rest with the directories above in front; either way it accepts what the rest accepts below
directories that it can cross.
-/

namespace PathSearch.Glob

/-- The glob with a globstar in front. -/
def atAnyDepth (glob : Text) : Text := globstar ++ '/' :: glob

theorem split_atAnyDepth (glob : Text) : (atAnyDepth glob).split '/' = globstar :: glob.split '/' := by
  rw [atAnyDepth, Text.split_append]
  rfl

theorem mem_expandStars_atAnyDepth {glob deep : Text} :
    deep ∈ expandStars (atAnyDepth glob) ↔ ∃ one ∈ expandStars glob, deep = atAnyDepth one := by
  have front : spread globstar = [[globstar]] := by simp [spread]
  have join : ∀ chosen ∈ spreadAll (glob.split '/'),
      Text.join '/' ([globstar] ++ chosen) = atAnyDepth (Text.join '/' chosen) := fun chosen member =>
    Text.join_cons '/' globstar (mt (eq_nil_iff_of_mem_spreadAll member).mp (Text.split_ne_nil '/' glob))
  simp only [mem_expandStars, split_atAnyDepth, mem_spreadAll_cons, front, List.mem_singleton]
  constructor
  · intro found
    obtain ⟨_, ⟨_, chosen, rfl, member, rfl⟩, rfl⟩ := found
    exact ⟨_, ⟨chosen, member, rfl⟩, join chosen member⟩
  · intro found
    obtain ⟨_, ⟨chosen, member, rfl⟩, rfl⟩ := found
    exact ⟨_, ⟨[globstar], chosen, rfl, member, rfl⟩, join chosen member⟩

theorem starExpansions_atAnyDepth (glob : Text) :
    starExpansions (atAnyDepth glob) = starExpansions glob := by
  rw [starExpansions, starExpansions, split_atAnyDepth, List.foldr_cons]
  exact Nat.zero_add _

theorem exists_formsOf_atAnyDepth {pattern other glob : Text}
    (formed : ∃ forms, formsOf pattern glob = .ok forms) :
    ∃ forms, formsOf other (atAnyDepth glob) = .ok forms := by
  obtain ⟨checked, few, made⟩ := exists_formsOf_iff.mp formed
  refine exists_formsOf_iff.mpr ⟨?_, by rwa [starExpansions_atAnyDepth], ?_⟩
  · have unclassed : '[' ∉ globstar ++ ['/'] := by decide
    have same := checkClasses_append unclassed glob
    rw [List.append_assoc] at same
    exact same.trans checked
  · intro deep expanded
    obtain ⟨one, inside, rfl⟩ := mem_expandStars_atAnyDepth.mp expanded
    have legible := exists_formOf?_iff.mp (made one inside)
    rw [exists_formOf?_iff, split_atAnyDepth]
    exact List.forall_mem_cons.mpr ⟨isLegible_globstar, legible⟩

/-- The line of a relative glob that does not end in a blank has a segment more with a globstar in front. -/
theorem lineSegments_atAnyDepth {one : Text} (nonempty : one ≠ []) (relative : one.head? ≠ some '/')
    (kept : ∀ last, one.getLast? = some last → Text.isBlank last = false) :
    ∃ segments isDirectory, segments ≠ [] ∧
      lineSegments (anchoredLine one) = (segments, isDirectory) ∧
      lineSegments (anchoredLine (atAnyDepth one)) = (globstar :: segments, isDirectory) := by
  have whole : Text.stripRight ('/' :: one) = '/' :: one := by
    apply Text.stripRight_eq_self
    intro last found
    obtain ⟨first, rest, rfl⟩ := List.exists_cons_of_ne_nil nonempty
    rw [List.getLast?_cons_cons] at found
    exact kept last found
  have deeper : Text.stripRight ('/' :: atAnyDepth one) = '/' :: atAnyDepth one := by
    have behind := @Text.trimRight_append Text.isBlank ['/', '*', '*'] ('/' :: one)
    rw [← Text.stripRight, ← Text.stripRight, whole] at behind
    exact behind (by simp)
  obtain ⟨before, last, split⟩ :=
    (List.eq_nil_or_concat (one.split '/')).resolve_left (Text.split_ne_nil '/' one)
  rw [List.concat_eq_append] at split
  have longer : (atAnyDepth one).split '/' = (globstar :: before) ++ [last] := by
    rw [split_atAnyDepth, split]
    rfl
  rw [anchoredLine_of_relative relative, anchoredLine_of_relative (by simp [atAnyDepth, globstar]), whole,
    deeper]
  refine ⟨_, _, ?_, lineSegments_of_split split, ?_⟩
  · simp
  · rw [lineSegments_of_split longer]
    simp [nonempty, atAnyDepth]

/-- Directories in a line, and the slash behind them. -/
theorem above_covers_append {above crossed : Text} (some : above ≠ []) (inLine : '\n' ∉ above)
    (covers : Piece.above.Covers crossed) : Piece.above.Covers (above ++ '/' :: crossed) := by
  rcases covers with rfl | ⟨names, -, clear, rfl⟩
  · exact .inr ⟨above, some, inLine, rfl⟩
  · exact .inr ⟨above ++ '/' :: names, by simp, by simp [inLine, clear], by simp⟩

section Forms

variable {one deep : Text} {segments : List Text} {isDirectory : Bool}
  (line : lineSegments (anchoredLine one) = (segments, isDirectory))
  (deeper : lineSegments (anchoredLine deep) = (globstar :: segments, isDirectory))

include line

/-- A form of its own accepts whatever has a slash. -/
theorem formOf?_cases :
    (∃ form, formOf? one = some form ∧ ∀ text, '/' ∈ text → form.accepts text = true) ∨
      formOf? one = covering? (mergeGlobstars segments) ∧ mergeGlobstars segments ≠ [globstar] := by
  have visible : ∀ text, '/' ∈ text → Form.visible.accepts text = true := fun text inside =>
    List.any_eq_true.mpr ⟨'/', inside, rfl⟩
  have nested : ∀ text, '/' ∈ text → Form.nested.accepts text = true := fun text inside =>
    List.any_eq_true.mpr ⟨'/', inside, rfl⟩
  simp only [formOf?, line]
  by_cases alone : mergeGlobstars segments = [globstar]
  · rw [if_pos alone]
    cases isDirectory with
    | false => exact .inl ⟨_, rfl, visible⟩
    | true => exact .inl ⟨_, rfl, nested⟩
  · rw [if_neg alone]
    split
    · exact .inl ⟨_, rfl, visible⟩
    · split
      · exact .inl ⟨_, rfl, nested⟩
      · exact .inr ⟨rfl, alone⟩

theorem formOf?_of_ne {first : Text} {rest : List Text} (shape : mergeGlobstars segments = first :: rest)
    (other : first ≠ globstar) : formOf? one = coveringFrom? false (first :: rest) := by
  simp only [formOf?, line, shape, List.cons.injEq, other, false_and, if_false]
  exact covering?_of_ne other

omit line in
/-- The globstar is one of the segments already, or it comes in front of them. -/
theorem mergeGlobstars_globstar_cases (nonempty : segments ≠ []) :
    mergeGlobstars (globstar :: segments) = mergeGlobstars segments ∨
      ∃ first rest, mergeGlobstars segments = first :: rest ∧ first ≠ globstar ∧
        mergeGlobstars (globstar :: segments) = globstar :: first :: rest := by
  obtain ⟨second, others, rfl⟩ := List.exists_cons_of_ne_nil nonempty
  by_cases across : second = globstar
  · exact .inl (by rw [mergeGlobstars, if_pos ⟨rfl, across⟩])
  · obtain ⟨first, rest, shape⟩ := List.exists_cons_of_ne_nil (mt mergeGlobstars_eq_nil.mp nonempty)
    have start := head?_mergeGlobstars (second :: others)
    obtain rfl : first = second := by simpa [shape] using start
    refine .inr ⟨first, rest, shape, across, ?_⟩
    rw [mergeGlobstars, if_neg fun both => across both.2, shape]

variable (nonempty : segments ≠ [])

include deeper nonempty

/-- Below directories in a line, the globstar in front lets through what fits without it. -/
theorem fits_deep_of_above {above text : Text} (some : above ≠ []) (inLine : '\n' ∉ above)
    (fits : Fits (formOf? one) text) : Fits (formOf? deep) (above ++ '/' :: text) := by
  rcases formOf?_cases deeper with ⟨form, made, accepts⟩ | ⟨made, more⟩
  · exact ⟨form, made, accepts _ (by simp)⟩
  · rcases mergeGlobstars_globstar_cases nonempty with same | ⟨first, rest, shape, other, merged⟩
    · have alike : formOf? one = formOf? deep := by simp only [formOf?, line, deeper, same]
      rw [alike, made] at fits
      rw [made]
      obtain ⟨next, rest, shape⟩ :
          ∃ next rest, mergeGlobstars (globstar :: segments) = globstar :: next :: rest := by
        have start := head?_mergeGlobstars (globstar :: segments)
        rcases mergeGlobstars_cases (by simp) more with ⟨first, rest, shape, other⟩ | ⟨next, rest, shape, -⟩
        · exact absurd (by simpa [shape] using start) other
        · exact ⟨next, rest, shape⟩
      rw [shape, fits_above] at fits ⊢
      obtain ⟨crossed, beyond, rfl, covers, fits⟩ := fits
      exact ⟨above ++ '/' :: crossed, beyond, by simp, above_covers_append some inLine covers, fits⟩
    · rw [formOf?_of_ne line shape other] at fits
      rw [made, merged, fits_above]
      exact ⟨above ++ ['/'], text, by simp, .inr ⟨above, some, inLine, rfl⟩, fits⟩

/-- The globstar in front lets through what fits without it, unless nothing but line breaks is to be seen. -/
theorem fits_deep {text : Text} (shown : ∃ character ∈ text, character ≠ '\n')
    (fits : Fits (formOf? one) text) : Fits (formOf? deep) text := by
  rcases mergeGlobstars_globstar_cases nonempty with same | ⟨first, rest, shape, other, merged⟩
  · have alike : formOf? one = formOf? deep := by simp only [formOf?, line, deeper, same]
    rwa [← alike]
  · rw [formOf?_of_ne line shape other] at fits
    simp only [formOf?, deeper, merged]
    rw [if_neg (by simp)]
    split
    · rw [fits_some]
      simpa [Form.accepts] using shown
    · split
      · rename_i deep
        obtain ⟨rfl, rfl⟩ : first = star ∧ rest = [globstar] := by simpa using deep
        obtain ⟨pieces, name, beyond, -, rfl, -, last⟩ := (fits_segment (by decide)).mp fits
        obtain ⟨left, rfl⟩ := exists_slash_of_fits (by simp) last
        simp [fits_some, Form.accepts]
      · exact fits_above.mpr ⟨[], text, rfl, .inl rfl, fits⟩

end Forms

end PathSearch.Glob
