import PathSearch.Proofs.Glob.Classes
import PathSearch.Proofs.Glob.Line
import PathSearch.Proofs.Text.Strip

/-! A glob has a form when each class of each of its segments can be read; nothing else stands in its way. -/

namespace PathSearch.Glob

/-- Every class of the text can be read. -/
def IsLegible (text : Text) : Prop :=
  ∀ inner ∈ classTexts text, ∃ charClass, CharClass.read? inner = some charClass

theorem exists_segmentPieces?_iff {segment : Text} :
    (∃ pieces, segmentPieces? segment = some pieces) ↔ IsLegible segment := by
  rw [← Option.isSome_iff_exists, ← Option.ne_none_iff_isSome, ne_eq, segmentPieces?_eq_none_iff]
  simp only [IsLegible, ← Option.isSome_iff_exists, ← Option.ne_none_iff_isSome]
  simp

theorem isLegible_of_unclassed {text : Text} (unclassed : '[' ∉ text) : IsLegible text := by
  simp [IsLegible, (Classed.of_unclassed unclassed).classTexts_eq]

theorem isLegible_globstar : IsLegible globstar := isLegible_of_unclassed (by decide)

theorem isLegible_star : IsLegible star := isLegible_of_unclassed (by decide)

theorem isLegible_append {tail : Text} (closeless : ']' ∉ tail) (text : Text) :
    IsLegible (text ++ tail) ↔ IsLegible text := by
  rw [IsLegible, IsLegible, classTexts_append closeless]

section Segments

variable {slash : Bool} {segment next : Text} {segments rest : List Text}

theorem exists_namePieces?_iff :
    (∃ pieces, namePieces? segment = some pieces) ↔ IsLegible segment := by
  by_cases named : segment = star
  · simp [namePieces?, named, isLegible_star]
  · rw [namePieces?, if_neg named, exists_segmentPieces?_iff]

theorem exists_prepended_iff {pieces? : Option (List Piece)} :
    (∃ form, prepended pieces? (coveringFrom? slash segments) = some form) ↔
      (∃ pieces, pieces? = some pieces) ∧ ∃ form, coveringFrom? slash segments = some form := by
  cases pieces? with
  | none => simp [prepended]
  | some pieces =>
      cases made : coveringFrom? slash segments with
      | none => simp [prepended]
      | some form =>
          obtain ⟨others, ending, rfl⟩ := exists_covering_of_coveringFrom? made
          simp [prepended]

theorem exists_coveringFrom?_iff :
    (∃ form, coveringFrom? slash segments = some form) ↔ ∀ segment ∈ segments, IsLegible segment := by
  induction segments generalizing slash with
  | nil => simp [coveringFrom?]
  | cons segment rest ih =>
      rw [List.forall_mem_cons]
      cases rest with
      | nil =>
          rw [coveringFrom?]
          by_cases last : segment = globstar
          · simp [last, isLegible_globstar]
          · by_cases named : segment = star
            · rw [if_neg last, if_pos named, named]
              simp [isLegible_star]
            · rw [if_neg last, if_neg named, ← Option.isSome_iff_exists, Option.isSome_map,
                Option.isSome_iff_exists, exists_segmentPieces?_iff]
              simp
      | cons next rest =>
          rw [coveringFrom?_cons, exists_prepended_iff, ih]
          by_cases across : segment = globstar
          · simp [across, isLegible_globstar]
          · rw [if_neg across, ← Option.isSome_iff_exists, Option.isSome_map,
              Option.isSome_iff_exists, exists_namePieces?_iff]

theorem exists_covering?_iff :
    (∃ form, covering? segments = some form) ↔ ∀ segment ∈ segments, IsLegible segment := by
  rcases segments with _ | ⟨first, _ | ⟨next, rest⟩⟩
  · exact exists_coveringFrom?_iff
  · exact exists_coveringFrom?_iff
  · by_cases across : first = globstar
    · subst across
      rw [covering?_globstar, exists_prepended_iff, exists_coveringFrom?_iff]
      simp [isLegible_globstar]
    · rw [covering?_of_ne across, exists_coveringFrom?_iff]

/-- Merging leaves out nothing but globstars. -/
theorem mem_mergeGlobstars_iff (other : segment ≠ globstar) :
    segment ∈ mergeGlobstars segments ↔ segment ∈ segments := by
  refine ⟨mem_of_mem_mergeGlobstars, ?_⟩
  fun_induction mergeGlobstars segments with
  | case1 first second rest both ih =>
      intro member
      refine ih (List.mem_of_ne_of_mem ?_ member)
      rw [both.1]
      exact other
  | case2 first second rest apart ih =>
      intro member
      rcases List.mem_cons.mp member with same | member
      · exact same ▸ List.mem_cons_self ..
      · exact List.mem_cons_of_mem _ (ih member)
  | case3 => exact id

theorem forall_mergeGlobstars_iff :
    (∀ segment ∈ mergeGlobstars segments, IsLegible segment) ↔ ∀ segment ∈ segments, IsLegible segment := by
  constructor
  · intro legible segment member
    by_cases across : segment = globstar
    · rw [across]
      exact isLegible_globstar
    · exact legible segment ((mem_mergeGlobstars_iff across).mpr member)
  · intro legible segment member
    exact legible segment (mem_of_mem_mergeGlobstars member)

end Segments

section Lines

variable {glob : Text} {segments : List Text} {isDirectory : Bool}

theorem exists_formOf?_iff_of_line (line : lineSegments (anchoredLine glob) = (segments, isDirectory)) :
    (∃ form, formOf? glob = some form) ↔ ∀ segment ∈ segments, IsLegible segment := by
  rw [← forall_mergeGlobstars_iff]
  simp only [formOf?, line]
  by_cases alone : mergeGlobstars segments = [globstar]
  · simp [alone, isLegible_globstar]
  · by_cases shown : mergeGlobstars segments = [globstar, star]
    · simp [shown, isLegible_globstar, isLegible_star]
    · by_cases deep : mergeGlobstars segments = [globstar, star, globstar]
      · simp [deep, isLegible_globstar, isLegible_star]
      · rw [if_neg alone, if_neg shown, if_neg deep, exists_covering?_iff]

/-- Blanks at the end of a line leave its classes alone. -/
theorem isLegible_split_append {tail : Text} (blank : ∀ character ∈ tail, Text.isBlank character = true)
    (text : Text) :
    (∀ segment ∈ (text ++ tail).split '/', IsLegible segment) ↔
      ∀ segment ∈ text.split '/', IsLegible segment := by
  have closeless : ']' ∉ tail := Text.notMem_of_isBlank blank (by decide)
  have clear : '/' ∉ tail := Text.notMem_of_isBlank blank (by decide)
  obtain ⟨before, last, alone, longer⟩ := Text.exists_split_append clear text
  rw [alone, longer, List.forall_mem_append, List.forall_mem_append, List.forall_mem_singleton,
    List.forall_mem_singleton, isLegible_append closeless]

theorem isLegible_split_slash (text : Text) :
    (∀ segment ∈ Text.split '/' ('/' :: text), IsLegible segment) ↔
      ∀ segment ∈ text.split '/', IsLegible segment := by
  rw [Text.split, if_pos rfl, List.forall_mem_cons]
  simp [isLegible_of_unclassed]

/-- The line of a glob begins with a slash, and what follows is the glob, without a slash of its own and
without the blanks at its end. -/
theorem exists_anchoredLine (glob : Text) :
    ∃ body tail : Text, anchoredLine glob = '/' :: body ∧
      (∀ character ∈ tail, Text.isBlank character = true) ∧
        (glob = body ++ tail ∨ glob = '/' :: (body ++ tail)) := by
  obtain ⟨rooted, start, cases⟩ : ∃ rooted : Text, anchoredLine glob = Text.stripRight ('/' :: rooted) ∧
      (glob = rooted ∨ glob = '/' :: rooted) := by
    by_cases slash : ['/'].isPrefixOf glob = true
    · obtain ⟨rooted, rfl⟩ := List.isPrefixOf_iff_prefix.mp slash
      exact ⟨rooted, by rw [anchoredLine, if_pos slash]; rfl, .inr rfl⟩
    · exact ⟨glob, by rw [anchoredLine, if_neg slash], .inl rfl⟩
  obtain ⟨tail, whole, blank⟩ := Text.exists_dropped Text.isBlank ('/' :: rooted)
  have kept : Text.trimRight Text.isBlank ('/' :: rooted) ≠ [] :=
    Text.trimRight_ne_nil (List.mem_cons_self ..) (by decide)
  obtain ⟨slash, body, line⟩ := List.exists_cons_of_ne_nil kept
  rw [line] at whole
  obtain ⟨rfl, rfl⟩ := List.cons.inj whole
  exact ⟨body, tail, start.trans line, blank, cases⟩

theorem exists_lineSegments (rest : Text) :
    ∃ segments isDirectory, lineSegments ('/' :: rest) = (segments, isDirectory) ∧
      ((∀ segment ∈ segments, IsLegible segment) ↔ ∀ segment ∈ rest.split '/', IsLegible segment) := by
  obtain ⟨before, last, split⟩ :=
    (List.eq_nil_or_concat (rest.split '/')).resolve_left (Text.split_ne_nil '/' rest)
  rw [List.concat_eq_append] at split
  refine ⟨_, _, lineSegments_of_split split, ?_⟩
  rw [split, List.forall_mem_append, List.forall_mem_append, List.forall_mem_singleton,
    List.forall_mem_singleton]
  by_cases ended : last = []
  · rw [if_pos ended, ended]
    exact and_congr_right fun _ => iff_of_true isLegible_globstar (isLegible_of_unclassed (by simp))
  · rw [if_neg ended]

theorem exists_formOf?_iff :
    (∃ form, formOf? glob = some form) ↔ ∀ segment ∈ glob.split '/', IsLegible segment := by
  obtain ⟨body, tail, line, blank, shape⟩ := exists_anchoredLine glob
  obtain ⟨segments, isDirectory, read, legible⟩ := exists_lineSegments body
  rw [← line] at read
  rw [exists_formOf?_iff_of_line read, legible, ← isLegible_split_append blank]
  rcases shape with rfl | rfl
  · rfl
  · exact (isLegible_split_slash _).symm

end Lines

end PathSearch.Glob
