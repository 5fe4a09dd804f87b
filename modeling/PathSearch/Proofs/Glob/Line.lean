import PathSearch.Proofs.Glob.Names

/-! The form of a whole line: globstars in a row count as one, and a few lines have a form of their own. -/

namespace PathSearch.Glob

/-- What a line is read as: an empty last segment is a globstar. -/
theorem lineSegments_of_split {text last : Text} {before : List Text}
    (split : text.split '/' = before ++ [last]) :
    lineSegments ('/' :: text) =
      (before ++ [if last = [] then globstar else last], decide (last = [] ∧ text ≠ [])) := by
  simp only [lineSegments, Text.split, if_true, List.drop_succ_cons, List.drop_zero, split,
    List.getLast?_concat, List.dropLast_concat, Option.some.injEq]
  by_cases ended : last = []
  · simp [ended]
  · simp [ended]

theorem consumes_globstar_append {rest names : List Text} (taken : List Text)
    (consumes : Consumes (globstar :: rest) names) :
    Consumes (globstar :: rest) (taken ++ names) := by
  obtain ⟨first, later, rfl, takes, others⟩ := consumes_cons_iff.mp consumes
  rw [← List.append_assoc]
  refine .cons (takes_globstar.mpr fun last => ?_) others
  simp [takes_globstar.mp takes last]

theorem head?_mergeGlobstars (segments : List Text) :
    (mergeGlobstars segments).head? = segments.head? := by
  fun_induction mergeGlobstars segments with
  | case1 first second rest both ih =>
      rw [ih, both.1, both.2]
      rfl
  | case2 => rfl
  | case3 => rfl

theorem getLast?_mergeGlobstars (segments : List Text) :
    (mergeGlobstars segments).getLast? = segments.getLast? := by
  fun_induction mergeGlobstars segments with
  | case1 first second rest both ih => rw [ih, List.getLast?_cons_cons]
  | case2 first second rest apart ih => simp [List.getLast?_cons, ih]
  | case3 => rfl

theorem mergeGlobstars_eq_nil {segments : List Text} :
    mergeGlobstars segments = [] ↔ segments = [] := by
  rw [← List.head?_eq_none_iff, head?_mergeGlobstars, List.head?_eq_none_iff]

theorem mem_of_mem_mergeGlobstars {segments : List Text} {segment : Text}
    (member : segment ∈ mergeGlobstars segments) : segment ∈ segments := by
  fun_induction mergeGlobstars segments with
  | case1 first second rest both ih => exact List.mem_cons_of_mem _ (ih member)
  | case2 first second rest apart ih =>
      rcases List.mem_cons.mp member with same | member
      · exact same ▸ List.mem_cons_self ..
      · exact List.mem_cons_of_mem _ (ih member)
  | case3 => exact member

theorem mergeGlobstars_append {start : List Text} (other : ∀ segment ∈ start, segment ≠ globstar)
    (rest : List Text) : mergeGlobstars (start ++ rest) = start ++ mergeGlobstars rest := by
  induction start with
  | nil => rfl
  | cons segment start ih =>
      have first := other segment (List.mem_cons_self ..)
      have later := ih fun following member => other following (List.mem_cons_of_mem _ member)
      rw [List.cons_append, List.cons_append, ← later]
      cases start ++ rest with
      | nil => rfl
      | cons next others =>
          rw [mergeGlobstars, if_neg]
          exact fun both => first both.1

theorem mergeGlobstars_eq_self {segments : List Text}
    (other : ∀ segment ∈ segments, segment ≠ globstar) : mergeGlobstars segments = segments := by
  have whole := mergeGlobstars_append other []
  rwa [List.append_nil, show mergeGlobstars [] = [] from rfl, List.append_nil] at whole

theorem ne_globstar_of_mergeGlobstars {segments rest : List Text} {next : Text}
    (merged : mergeGlobstars segments = globstar :: next :: rest) : next ≠ globstar := by
  fun_induction mergeGlobstars segments with
  | case1 first second others both ih => exact ih merged
  | case2 first second others apart =>
      obtain ⟨start, later⟩ := List.cons.inj merged
      have following := head?_mergeGlobstars (second :: others)
      rw [later] at following
      intro same
      exact apart ⟨start, (Option.some.inj following).symm.trans same⟩
  | case3 alone short => exact absurd merged (short globstar next rest)

theorem eq_globstar_of_mergeGlobstars {segments : List Text}
    (merged : mergeGlobstars segments = [globstar]) : ∀ segment ∈ segments, segment = globstar := by
  fun_induction mergeGlobstars segments with
  | case1 first second rest both ih =>
      intro segment member
      rcases List.mem_cons.mp member with same | member
      · exact same.trans both.1
      · exact ih merged segment member
  | case2 first second rest =>
      have none := mergeGlobstars_eq_nil.mp (List.cons.inj merged).2
      cases none
  | case3 => simp [merged]

theorem mergeGlobstars_of_globstars {segments : List Text} (nonempty : segments ≠ [])
    (stars : ∀ segment ∈ segments, segment = globstar) : mergeGlobstars segments = [globstar] := by
  fun_induction mergeGlobstars segments with
  | case1 first second rest both ih =>
      exact ih (List.cons_ne_nil _ _) fun segment member => stars segment (List.mem_cons_of_mem _ member)
  | case2 first second rest apart => exact absurd ⟨stars first (by simp), stars second (by simp)⟩ apart
  | case3 segments short =>
      obtain ⟨first, rest, rfl⟩ := List.exists_cons_of_ne_nil nonempty
      rcases rest with _ | ⟨second, rest⟩
      · rw [stars first (List.mem_cons_self ..)]
      · exact absurd rfl (short first second rest)

theorem consumes_mergeGlobstars {segments names : List Text} :
    Consumes (mergeGlobstars segments) names ↔ Consumes segments names := by
  fun_induction mergeGlobstars segments generalizing names with
  | case1 first second rest both ih =>
      obtain ⟨rfl, rfl⟩ := both
      rw [ih, consumes_globstar]
      constructor
      · intro consumes
        exact ⟨[], names, rfl, consumes⟩
      · intro consumes
        obtain ⟨taken, later, rfl, consumes⟩ := consumes
        exact consumes_globstar_append taken consumes
  | case2 first second rest apart ih =>
      have last : mergeGlobstars (second :: rest) = [] ↔ second :: rest = [] := mergeGlobstars_eq_nil
      simp only [consumes_cons_iff, ih, last]
  | case3 => rfl

theorem consumes_star {name : Text} (plain : IsPlainName name) {rest later : List Text} :
    Consumes (star :: rest) (name :: later) ↔ Consumes rest later := by
  have read : Wild star (name ++ []) := Wild.empty.run plain.clear
  rw [List.append_nil] at read
  rw [consumes_simple (by decide)]
  constructor
  · intro consumes
    obtain ⟨_, _, same, -, consumes⟩ := consumes
    cases same
    exact consumes
  · intro consumes
    exact ⟨name, later, rfl, read, consumes⟩

section Alone

variable {names : List Text} (plain : ∀ name ∈ names, IsPlainName name)

include plain

theorem consumes_globstar_star : Consumes [globstar, star] names ↔ names ≠ [] := by
  rw [consumes_globstar]
  constructor
  · intro consumes none
    obtain ⟨taken, later, rfl, consumes⟩ := consumes
    obtain ⟨name, left, rfl, -⟩ := (consumes_simple (by decide)).mp consumes
    simp at none
  · intro some
    obtain ⟨before, last, shape⟩ := (List.eq_nil_or_concat names).resolve_left some
    have held : last ∈ names := by simp [shape]
    rw [List.concat_eq_append] at shape
    exact ⟨before, [last], shape, (consumes_star (plain last held)).mpr .nil⟩

theorem consumes_globstar_star_globstar :
    Consumes [globstar, star, globstar] names ↔ 2 ≤ names.length := by
  rw [consumes_globstar]
  constructor
  · intro consumes
    obtain ⟨taken, later, rfl, consumes⟩ := consumes
    obtain ⟨name, left, rfl, -, last⟩ := (consumes_simple (by decide)).mp consumes
    have some := List.length_pos_iff.mpr (consumes_last_globstar.mp last)
    simp only [List.length_append, List.length_cons]
    omega
  · intro long
    rcases names with _ | ⟨first, _ | ⟨second, rest⟩⟩
    · simp at long
    · simp at long
    · refine ⟨[], _, rfl, (consumes_star (plain first (List.mem_cons_self ..))).mpr ?_⟩
      exact consumes_last_globstar.mpr (by simp)

theorem visible_accepts_join : Form.visible.accepts (Text.join '/' names) = true ↔ names ≠ [] := by
  simp only [Form.accepts, List.any_eq_true, bne_iff_ne]
  constructor
  · intro shown none
    subst none
    simp [Text.join] at shown
  · intro some
    obtain ⟨character, rest, shape⟩ : ∃ character rest, Text.join '/' names = character :: rest :=
      List.exists_cons_of_ne_nil fun empty => some (eq_nil_of_join_eq_nil plain empty)
    have inLine := (isClosed_join plain).inLine
    rw [shape] at inLine ⊢
    refine ⟨character, List.mem_cons_self .., ?_⟩
    intro same
    exact inLine (same ▸ List.mem_cons_self ..)

theorem nested_accepts_join :
    Form.nested.accepts (Text.join '/' names) = true ↔ 2 ≤ names.length := by
  simp only [Form.accepts, List.any_eq_true, beq_iff_eq, exists_eq_right]
  rcases names with _ | ⟨first, _ | ⟨second, rest⟩⟩
  · simp [Text.join]
  · simpa [Text.join] using (plain first (List.mem_cons_self ..)).clear
  · simp [Text.join]

end Alone

section Forms

variable {glob : Text} {segments : List Text} {isDirectory : Bool}
  (line : lineSegments (anchoredLine glob) = (segments, isDirectory))

include line

section Names

variable {names : List Text} (plain : ∀ name ∈ names, IsPlainName name)

include plain

theorem fits_formOf?_of_globstar (file : isDirectory = false)
    (alone : mergeGlobstars segments = [globstar]) :
    Fits (formOf? glob) (Text.join '/' names) ↔ names ≠ [] := by
  simp only [formOf?, line, if_pos alone, file, fits_some]
  exact visible_accepts_join plain

/-- On names, the forms that are written down for stars alone are no exceptions. -/
theorem fits_formOf?_of_ne (more : mergeGlobstars segments ≠ [globstar]) :
    Fits (formOf? glob) (Text.join '/' names) ↔
      Fits (covering? (mergeGlobstars segments)) (Text.join '/' names) := by
  have simple : IsSimple star := ⟨by decide, by decide, by decide, .inr rfl⟩
  simp only [formOf?, line, if_neg more]
  by_cases shown : mergeGlobstars segments = [globstar, star]
  · have meaning := @fits_above_join names plain star [] (by decide) (by simpa using simple)
    rw [if_pos shown, shown, meaning, consumes_globstar_star plain, fits_some,
      visible_accepts_join plain]
  · rw [if_neg shown]
    by_cases deep : mergeGlobstars segments = [globstar, star, globstar]
    · have meaning := @fits_above_join names plain star [globstar] (by decide)
        (by simpa using ⟨simple, isSimple_globstar⟩)
      rw [if_pos deep, deep, meaning, consumes_globstar_star_globstar plain, fits_some,
        nested_accepts_join plain]
    · rw [if_neg deep]

end Names

variable (simple : ∀ segment ∈ segments, IsSimple segment) (nonempty : segments ≠ [])

include simple nonempty

theorem fits_formOf? (named : isDirectory = true → mergeGlobstars segments ≠ [globstar])
    {names : List Text} (plain : ∀ name ∈ names, IsPlainName name) :
    Fits (formOf? glob) (Text.join '/' names) ↔ Consumes segments names := by
  have merged := fun segment member => simple segment (mem_of_mem_mergeGlobstars member)
  rw [← consumes_mergeGlobstars]
  by_cases alone : mergeGlobstars segments = [globstar]
  · have file : isDirectory = false := Bool.eq_false_iff.mpr fun directory => named directory alone
    rw [fits_formOf?_of_globstar line plain file alone, alone, consumes_last_globstar]
  · rw [fits_formOf?_of_ne line plain alone]
    obtain ⟨first, rest, shape⟩ :=
      List.exists_cons_of_ne_nil (mt mergeGlobstars_eq_nil.mp nonempty)
    rw [shape] at merged alone ⊢
    by_cases across : first = globstar
    · subst across
      obtain ⟨next, rest, rfl⟩ : ∃ next following, rest = next :: following :=
        List.exists_cons_of_ne_nil fun none => alone (by rw [none])
      exact fits_above_join plain (ne_globstar_of_mergeGlobstars shape)
        fun segment member => merged segment (List.mem_cons_of_mem _ member)
    · rw [covering?_of_ne across]
      exact fits_join plain across merged

end Forms

end PathSearch.Glob
