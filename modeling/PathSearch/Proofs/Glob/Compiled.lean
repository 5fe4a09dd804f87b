import PathSearch.Proofs.Glob.Literal
import PathSearch.Proofs.Glob.Names

/-! When a pattern compiles, and what the compiled matcher accepts. -/

namespace PathSearch.Glob

section Alternative

variable {pattern alternative : Text} {forms : List Form}

theorem formsOf_of_many (checked : checkClasses alternative = .ok ())
    (many : expansionLimit < starExpansions alternative) :
    formsOf pattern alternative = .error .tooManyExpansions := by
  unfold formsOf
  rw [checked, if_pos many]
  rfl

theorem formsOf_eq_ok :
    formsOf pattern alternative = .ok forms ↔
      checkClasses alternative = .ok () ∧ starExpansions alternative ≤ expansionLimit ∧
        ((expandStars alternative).mapM fun glob =>
          match formOf? glob with
          | some form => Except.ok form
          | none => Except.error Error.reversedMember) = .ok forms := by
  unfold formsOf
  rw [bind_eq_ok]
  cases checked : checkClasses alternative with
  | error reason =>
      constructor
      · intro found
        obtain ⟨_, found, -⟩ := found
        cases found
      · intro found
        cases found.1
  | ok =>
      by_cases many : expansionLimit < starExpansions alternative
      · rw [if_pos many]
        constructor
        · intro found
          obtain ⟨_, -, found⟩ := found
          cases found
        · intro found
          exact absurd found.2.1 (Nat.not_le_of_lt many)
      · rw [if_neg many]
        constructor
        · intro found
          obtain ⟨_, -, found⟩ := found
          exact ⟨rfl, Nat.le_of_not_lt many, found⟩
        · intro found
          exact ⟨(), rfl, found.2.2⟩

theorem form_eq_ok {glob : Text} {form : Form} :
    (match formOf? glob with
      | some form => Except.ok form
      | none => Except.error Error.reversedMember) = .ok form ↔ formOf? glob = some form := by
  cases formOf? glob with
  | none => simp
  | some other => simp

theorem exists_formsOf_iff :
    (∃ forms, formsOf pattern alternative = .ok forms) ↔
      checkClasses alternative = .ok () ∧ starExpansions alternative ≤ expansionLimit ∧
        ∀ one ∈ expandStars alternative, ∃ form, formOf? one = some form := by
  simp only [formsOf_eq_ok, exists_and_left, exists_mapM_iff, form_eq_ok]

theorem mem_forms_iff (formed : formsOf pattern alternative = .ok forms) {form : Form} :
    form ∈ forms ↔ ∃ one ∈ expandStars alternative, formOf? one = some form := by
  obtain ⟨-, -, mapped⟩ := formsOf_eq_ok.mp formed
  simp only [mem_iff_of_mapM mapped, form_eq_ok]

end Alternative

section Pattern

variable {pattern : Text} {matcher : Matcher}

theorem compile_eq_ok :
    compile pattern = .ok matcher ↔
      trimmed pattern ≠ [] ∧ groupExpansions (trimmed pattern) ≤ expansionLimit ∧
        ∃ globs forms, alternatives (trimmed pattern) = .ok globs ∧
          globs.mapM (formsOf pattern) = .ok forms ∧
            matcher = .compiled (trimmed pattern) forms.flatten := by
  rw [compile_eq]
  by_cases empty : trimmed pattern = []
  · simp [empty]
  · by_cases many : expansionLimit < groupExpansions (trimmed pattern)
    · simp [empty, many, Nat.not_le_of_lt many]
    · rw [if_neg empty, if_neg many]
      cases alternatives (trimmed pattern) with
      | error reason => simp
      | ok globs =>
          simp only [bind_eq_ok, Except.ok.injEq]
          constructor
          · intro found
            obtain ⟨forms, mapped, rfl⟩ := found
            exact ⟨empty, Nat.le_of_not_lt many, globs, forms, rfl, mapped, rfl⟩
          · intro found
            obtain ⟨-, -, _, forms, rfl, mapped, rfl⟩ := found
            exact ⟨forms, mapped, rfl⟩

theorem mapM_formsOf {other : Text} {globs : List Text} {forms : List (List Form)} :
    globs.mapM (formsOf pattern) = .ok forms ↔ globs.mapM (formsOf other) = .ok forms := by
  induction globs generalizing forms with
  | nil => rfl
  | cons glob globs ih => simp only [mapM_cons_eq_ok, formsOf_eq_ok, ih]

/-- Blanks around a pattern and the kind of its slashes make no difference. -/
theorem compile_of_trimmed_eq {other : Text} (same : trimmed other = trimmed pattern)
    (compiled : compile pattern = .ok matcher) : compile other = .ok matcher := by
  obtain ⟨nonempty, few, globs, forms, split, mapped, shape⟩ := compile_eq_ok.mp compiled
  exact compile_eq_ok.mpr
    (same ▸ ⟨nonempty, few, globs, forms, split, mapM_formsOf.mp mapped, shape⟩)

/-- Some alternative of the pattern, its stars expanded, accepts the text. -/
theorem acceptsText_iff_of_compile (compiled : compile pattern = .ok matcher) {globs : List Text}
    (split : alternatives (trimmed pattern) = .ok globs) {text : Text} :
    matcher.acceptsText text = true ↔
      ∃ glob ∈ globs, ∃ one ∈ expandStars glob, Fits (formOf? one) (subject text) := by
  obtain ⟨-, -, _, forms, same, mapped, rfl⟩ := compile_eq_ok.mp compiled
  obtain rfl := Except.ok.inj (same.symm.trans split)
  simp only [Matcher.acceptsText, List.any_eq_true, List.mem_flatten]
  constructor
  · intro found
    obtain ⟨form, ⟨group, held, member⟩, accepted⟩ := found
    obtain ⟨glob, chosen, formed⟩ := (mem_iff_of_mapM mapped).mp held
    obtain ⟨one, expanded, made⟩ := (mem_forms_iff formed).mp member
    exact ⟨glob, chosen, one, expanded, form, made, accepted⟩
  · intro found
    obtain ⟨glob, chosen, one, expanded, form, made, accepted⟩ := found
    obtain ⟨group, formed⟩ := (exists_mapM_iff.mp ⟨forms, mapped⟩) glob chosen
    have held := (mem_iff_of_mapM mapped).mpr ⟨glob, chosen, formed⟩
    exact ⟨form, ⟨group, held, (mem_forms_iff formed).mpr ⟨one, expanded, made⟩⟩, accepted⟩

end Pattern

/-- A name as it stands in a path in one line, without backslashes. -/
def IsOrdinary (name : Text) : Prop := IsName name ∧ '\n' ∉ name ∧ '\\' ∉ name

instance (name : Text) : Decidable (IsOrdinary name) := inferInstanceAs (Decidable (_ ∧ _ ∧ _))

theorem IsOrdinary.isPlainName {name : Text} (ordinary : IsOrdinary name) : IsPlainName name :=
  ⟨ordinary.1.1, ordinary.1.2.1, ordinary.2.1⟩

theorem subject_join_of_unslashed {names : List Text}
    (named : ∀ name ∈ names, IsName name ∧ '\\' ∉ name) :
    subject (Text.join '/' names) = Text.join '/' names := by
  have unslashed : '\\' ∉ Text.join '/' names :=
    Text.notMem_join (by decide) fun name held => (named name held).2
  rw [subject, slashed_eq_self unslashed]
  cases names with
  | nil => rfl
  | cons name names =>
      obtain ⟨⟨nonempty, clear, dotless⟩, -⟩ := named name (List.mem_cons_self ..)
      rw [join_cons_eq]
      rcases name with _ | ⟨first, _ | ⟨second, rest⟩⟩
      · exact absurd rfl nonempty
      · simp only [List.mem_cons, not_or] at clear
        simp only [List.cons.injEq, and_true, ne_eq] at dotless
        simp [Ne.symm clear.1, dotless]
      · simp only [List.mem_cons, not_or] at clear
        simp [Ne.symm clear.1, Ne.symm clear.2.1]

theorem subject_join {names : List Text} (ordinary : ∀ name ∈ names, IsOrdinary name) :
    subject (Text.join '/' names) = Text.join '/' names :=
  subject_join_of_unslashed fun name held => ⟨(ordinary name held).1, (ordinary name held).2.2⟩

theorem text_of_names {path : Path} (relative : ¬ path.IsAbsolute) (some : path.names ≠ []) :
    path.text = Text.join '/' path.names := by
  have here : path.anchor = .here := not_not.mp relative
  obtain ⟨first, rest, shape⟩ := List.exists_cons_of_ne_nil some
  simp [Path.text, here, shape, Anchor.text]

/-- What matchers look at are the names, without the root. -/
theorem subject_text {path : Path} (single : path.anchor ≠ .doubleRoot)
    (unslashed : ∀ name ∈ path.names, '\\' ∉ name) :
    subject path.text = Text.join '/' path.names := by
  cases start : path.anchor with
  | doubleRoot => exact absurd start single
  | here =>
      by_cases none : path.names = []
      · have written : path.text = ['.'] := by simp [Path.text, start, none]
        rw [written, none]
        rfl
      · rw [text_of_names (by simp [Path.IsAbsolute, start]) none]
        exact subject_join_of_unslashed fun name member =>
          ⟨path.named name member, unslashed name member⟩
  | root =>
      have written : path.text = '/' :: Text.join '/' path.names := by
        simp [Path.text, start, Anchor.text]
      have names : '\\' ∉ Text.join '/' path.names := Text.notMem_join (by decide) unslashed
      rw [written, subject, slashed_eq_self (by simp [names])]
      rfl

end PathSearch.Glob
