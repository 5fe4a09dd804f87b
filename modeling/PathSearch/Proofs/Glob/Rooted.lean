import PathSearch.Proofs.Glob.Compiled

/-!
The leading slash of a path is dropped before it is matched, so nothing that a matcher tests tells an
absolute path from the relative one of the same names.
-/

namespace PathSearch.Glob

/-- What may stand in a path: anything but NUL, and a backslash is read as a slash. -/
def CanOccur (character : Char) : Prop := character ≠ '\\' ∧ character ≠ '\x00'

/-- No character that may stand in a path is in the set. -/
def CharSet.IsBarren (set : CharSet) : Prop :=
  ∀ character, CanOccur character → set.has character = false

/-- The form asks for a character out of a set that has none. -/
def Form.IsBarren : Form → Prop
  | .covering pieces _ => ∃ set, Piece.one set ∈ pieces ∧ set.IsBarren
  | _ => False

theorem CharSet.exists_of_not_isBarren {set : CharSet} (fertile : ¬ set.IsBarren) :
    ∃ character, CanOccur character ∧ set.has character = true := by
  simpa [IsBarren] using fertile

theorem Piece.exists_rowCovers {pieces : List Piece}
    (fertile : ∀ set, Piece.one set ∈ pieces → ¬ set.IsBarren) :
    ∃ text, (∀ character ∈ text, CanOccur character) ∧ Piece.RowCovers pieces text := by
  induction pieces with
  | nil => exact ⟨[], by simp, rfl⟩
  | cons piece pieces ih =>
      obtain ⟨text, occurs, covers⟩ := ih fun set member => fertile set (List.mem_cons_of_mem _ member)
      cases piece with
      | one set =>
          obtain ⟨character, possible, held⟩ :=
            CharSet.exists_of_not_isBarren (fertile set (List.mem_cons_self ..))
          exact ⟨character :: text, List.forall_mem_cons.mpr ⟨possible, occurs⟩,
            [character], text, rfl, ⟨character, held, rfl⟩, covers⟩
      | many set => exact ⟨text, occurs, [], text, rfl, by simp [Piece.Covers], covers⟩
      | above => exact ⟨text, occurs, [], text, rfl, .inl rfl, covers⟩
      | between => exact ⟨text, occurs, [], text, rfl, .inl rfl, covers⟩

theorem Piece.exists_held_of_rowCovers {pieces : List Piece} {set : CharSet} {text : Text}
    (member : Piece.one set ∈ pieces) (covers : Piece.RowCovers pieces text) :
    ∃ character ∈ text, set.has character = true := by
  induction pieces generalizing text with
  | nil => simp at member
  | cons piece pieces ih =>
      obtain ⟨start, rest, rfl, first, later⟩ := covers
      rcases List.mem_cons.mp member with rfl | member
      · obtain ⟨character, held, rfl⟩ := first
        exact ⟨character, by simp, held⟩
      · obtain ⟨character, inside, held⟩ := ih member later
        exact ⟨character, List.mem_append_right _ inside, held⟩

/-- A form accepts some path unless it asks for a character that no path has. -/
theorem Form.exists_accepts_iff {form : Form} :
    (∃ text, (∀ character ∈ text, CanOccur character) ∧ form.accepts text = true) ↔
      ¬ form.IsBarren := by
  cases form with
  | visible =>
      have seen : ∀ character ∈ ['a'], CanOccur character := by simp [CanOccur]
      exact iff_of_true ⟨['a'], seen, rfl⟩ id
  | nested =>
      have seen : ∀ character ∈ ['/'], CanOccur character := by simp [CanOccur]
      exact iff_of_true ⟨['/'], seen, rfl⟩ id
  | covering pieces ending =>
      constructor
      · intro found barren
        obtain ⟨text, occurs, accepted⟩ := found
        obtain ⟨set, member, none⟩ := barren
        obtain ⟨start, rest, rfl, covers, -⟩ := Form.accepts_covering_iff.mp accepted
        obtain ⟨character, inside, held⟩ := Piece.exists_held_of_rowCovers member covers
        have absent := none character (occurs character (List.mem_append_left _ inside))
        simp [held] at absent
      · intro fertile
        obtain ⟨text, occurs, covers⟩ := Piece.exists_rowCovers fun set member barren =>
          fertile ⟨set, member, barren⟩
        have finished : ending.accepts [] = true := by cases ending <;> rfl
        exact ⟨text, occurs, Form.accepts_covering_iff.mpr
          ⟨text, [], (List.append_nil text).symm, covers, finished⟩⟩

theorem back_notMem_subject {text : Text} : '\\' ∉ subject text := by
  have clear := @back_notMem_slashed text
  unfold subject
  split <;> simp_all

/-- What is dropped in front of a path: nothing, the root, or a dot that stands for the directory one is in. -/
theorem subject_cases {text : Text} (other : text ≠ ['.']) :
    ∃ front ∈ [[], ['/'], ['.', '/']], slashed text = front ++ subject text := by
  have dotless := slashed_ne_dot other
  unfold subject
  split
  · exact ⟨['/'], by simp, by assumption⟩
  · exact ⟨['.', '/'], by simp, by assumption⟩
  · contradiction
  · exact ⟨[], by simp, rfl⟩

theorem mem_of_mem_subject {text : Text} {character : Char} (other : character ≠ '/')
    (member : character ∈ subject text) : character ∈ text := by
  by_cases dot : text = ['.']
  · subst dot
    cases member
  · obtain ⟨front, -, whole⟩ := subject_cases dot
    exact mem_of_mem_slashed other (whole ▸ List.mem_append_right _ member)

theorem subject_slash {text : Text} (unslashed : '\\' ∉ text) : subject ('/' :: text) = text := by
  rw [subject, slashed_eq_self (by simp [unslashed])]
  rfl

theorem Matcher.acceptsText_slash (matcher : Matcher) (text : Text) :
    matcher.acceptsText ('/' :: subject text) = matcher.acceptsText text := by
  cases matcher with
  | everything => rfl
  | compiled pattern forms =>
      rw [Matcher.acceptsText, Matcher.acceptsText, subject_slash back_notMem_subject]

/-- The text of an absolute path. -/
def IsRooted (text : Text) : Prop := text.head? = some '/' ∧ '\x00' ∉ text

instance (text : Text) : Decidable (IsRooted text) := inferInstanceAs (Decidable (_ ∧ _))

/-- A pattern that compiles, none of its alternatives absolute, accepts no absolute path. -/
def KeepsOffRoot (pattern : Text) : Prop :=
  ∀ matcher globs, compile pattern = .ok matcher → alternatives (trimmed pattern) = .ok globs →
    (∀ glob ∈ globs, glob.head? ≠ some '/') → ∀ text, IsRooted text → matcher.acceptsText text = false

/-- A relative pattern accepts an absolute path as soon as it accepts any path: it keeps off the root only
when each of its forms asks for a character that no path has. -/
theorem keepsOffRoot_iff {pattern : Text} {matcher : Matcher} {globs : List Text}
    (compiled : compile pattern = .ok matcher) (split : alternatives (trimmed pattern) = .ok globs)
    (relative : ∀ glob ∈ globs, glob.head? ≠ some '/') :
    (∀ text, matcher.acceptsText ('/' :: subject text) = matcher.acceptsText text) ∧
      (KeepsOffRoot pattern ↔
        ∀ glob ∈ globs, ∀ one ∈ expandStars glob, ∀ form, formOf? one = some form → form.IsBarren) := by
  refine ⟨matcher.acceptsText_slash, ?_, ?_⟩
  · intro keeps glob chosen one expanded form made
    refine Classical.byContradiction fun fertile => ?_
    obtain ⟨text, occurs, accepted⟩ := Form.exists_accepts_iff.mpr fertile
    have unslashed : '\\' ∉ text := fun inside => (occurs _ inside).1 rfl
    have rooted : IsRooted ('/' :: text) :=
      ⟨rfl, by simpa using fun inside => (occurs _ inside).2 rfl⟩
    have refused := keeps matcher globs compiled split relative _ rooted
    have taken := (acceptsText_iff_of_compile compiled split).mpr
      ⟨glob, chosen, one, expanded, form, made, by rwa [subject_slash unslashed]⟩
    rw [taken] at refused
    cases refused
  · intro barren other alike found same _ text rooted
    obtain rfl := Except.ok.inj (compiled.symm.trans found)
    refine Bool.eq_false_iff.mpr fun accepted => ?_
    obtain ⟨glob, chosen, one, expanded, form, made, fits⟩ :=
      (acceptsText_iff_of_compile compiled split).mp accepted
    have occurs : ∀ character ∈ subject text, CanOccur character := by
      intro character inside
      refine ⟨fun back => back_notMem_subject (back ▸ inside), fun nul => ?_⟩
      subst nul
      exact rooted.2 (mem_of_mem_subject (by decide) inside)
    exact Form.exists_accepts_iff.mp ⟨_, occurs, fits⟩ (barren glob chosen one expanded form made)

theorem keepsOffRoot_nul : KeepsOffRoot ['\x00'] := by
  have compiled : compile ['\x00'] =
      .ok (.compiled ['\x00'] [.covering [.one (.only '\x00')] .finish]) :=
    eq_ok_of_toOption (by decide +kernel)
  have split : alternatives (trimmed ['\x00']) = .ok [['\x00']] :=
    alternatives_unbraced (by decide) (by decide)
  refine (keepsOffRoot_iff compiled split (by decide)).2.mpr ?_
  have forms : ∀ one ∈ expandStars ['\x00'],
      formOf? one = some (.covering [.one (.only '\x00')] .finish) := by decide +kernel
  intro glob chosen one expanded form made
  obtain rfl := List.mem_singleton.mp chosen
  rw [forms one expanded, Option.some.injEq] at made
  subst made
  refine ⟨.only '\x00', List.mem_singleton.mpr rfl, fun character occurs => ?_⟩
  exact beq_eq_false_iff_ne.mpr occurs.2

theorem not_keepsOffRoot : ¬ KeepsOffRoot ['a'] := by
  intro keeps
  have compiled : compile ['a'] = .ok (.compiled ['a'] [.covering [.one (.only 'a')] .finish]) :=
    eq_ok_of_toOption (by decide +kernel)
  have split : alternatives (trimmed ['a']) = .ok [['a']] := alternatives_unbraced (by decide) (by decide)
  have refused := keeps _ _ compiled split (by decide) ['/', 'a'] (by decide)
  revert refused
  decide +kernel

end PathSearch.Glob
