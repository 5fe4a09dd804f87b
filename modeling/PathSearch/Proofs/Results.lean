/-!
Lists of results: a function that may fail, applied to every item of a list, and lists of which every item is
kept once.
-/

namespace PathSearch

variable {α β ε : Type} {step : α → Except ε β} {items : List α} {results : List β}

theorem bind_eq_ok {γ : Type} {first : Except ε α} {next : α → Except ε γ} {result : γ} :
    (first >>= next) = .ok result ↔ ∃ value, first = .ok value ∧ next value = .ok result := by
  cases first with
  | error error => simp [bind, Except.bind]
  | ok value => simp [bind, Except.bind]

theorem bind_eq_error {γ : Type} {first : Except ε α} {next : α → Except ε γ} {error : ε} :
    (first >>= next) = .error error ↔
      first = .error error ∨ ∃ value, first = .ok value ∧ next value = .error error := by
  cases first with
  | error other => simp [bind, Except.bind]
  | ok value => simp [bind, Except.bind]

theorem map_eq_error {γ : Type} {result : Except ε α} {change : α → γ} {error : ε} :
    result.map change = .error error ↔ result = .error error := by
  cases result with
  | error other => simp [Except.map]
  | ok value => simp [Except.map]

theorem map_eq_ok {γ : Type} {result : Except ε α} {change : α → γ} {value : γ} :
    result.map change = .ok value ↔ ∃ inner, result = .ok inner ∧ change inner = value := by
  cases result with
  | error other => simp [Except.map]
  | ok inner => simp [Except.map]

theorem mapError_eq_ok {δ : Type} {result : Except ε α} {change : ε → δ} {value : α} :
    result.mapError change = .ok value ↔ result = .ok value := by
  cases result with
  | error error =>
      change Except.error (change error) = .ok value ↔ _
      simp
  | ok other =>
      change Except.ok other = .ok value ↔ _
      simp

theorem eq_ok_of_toOption {result : Except ε α} {value : α} (found : result.toOption = some value) :
    result = .ok value := by
  cases result with
  | error error => cases found
  | ok other =>
      cases found
      rfl

theorem exists_ok_of_isSome {result : Except ε α} (some : result.toOption.isSome = true) :
    ∃ value, result = .ok value := by
  obtain ⟨value, found⟩ := Option.isSome_iff_exists.mp some
  exact ⟨value, eq_ok_of_toOption found⟩

/-- How an error is read off where results cannot be compared, only errors. -/
theorem eq_error_of_match {result : Except ε α} {error : ε}
    (found : (match result with
      | .error error => some error
      | .ok _ => none) = some error) : result = .error error := by
  cases result with
  | error other =>
      cases found
      rfl
  | ok value => cases found

theorem mapM_cons_eq_ok {item : α} :
    (item :: items).mapM step = .ok results ↔
      ∃ first rest, step item = .ok first ∧ items.mapM step = .ok rest ∧ results = first :: rest := by
  rw [List.mapM_cons, bind_eq_ok]
  constructor
  · intro found
    obtain ⟨first, stepped, later⟩ := found
    obtain ⟨rest, mapped, same⟩ := bind_eq_ok.mp later
    simp only [pure, Except.pure, Except.ok.injEq] at same
    exact ⟨first, rest, stepped, mapped, same.symm⟩
  · intro found
    obtain ⟨first, rest, stepped, mapped, rfl⟩ := found
    exact ⟨first, stepped, bind_eq_ok.mpr ⟨rest, mapped, rfl⟩⟩

theorem mem_iff_of_mapM (mapped : items.mapM step = .ok results) {result : β} :
    result ∈ results ↔ ∃ item ∈ items, step item = .ok result := by
  induction items generalizing results with
  | nil =>
      simp only [List.mapM_nil, pure, Except.pure, Except.ok.injEq] at mapped
      simp [← mapped]
  | cons item items ih =>
      obtain ⟨first, rest, stepped, later, rfl⟩ := mapM_cons_eq_ok.mp mapped
      rw [List.mem_cons, ih later]
      simp [stepped, eq_comm]

theorem exists_mapM_iff :
    (∃ results, items.mapM step = .ok results) ↔ ∀ item ∈ items, ∃ result, step item = .ok result := by
  induction items with
  | nil => simp [pure, Except.pure]
  | cons item items ih =>
      constructor
      · intro found
        obtain ⟨results, mapped⟩ := found
        obtain ⟨first, rest, stepped, later, -⟩ := mapM_cons_eq_ok.mp mapped
        have others := ih.mp ⟨rest, later⟩
        intro other member
        rcases List.mem_cons.mp member with rfl | member
        · exact ⟨first, stepped⟩
        · exact others other member
      · intro all
        obtain ⟨first, stepped⟩ := all item (List.mem_cons_self ..)
        obtain ⟨rest, later⟩ := ih.mpr fun other member => all other (List.mem_cons_of_mem _ member)
        exact ⟨first :: rest, mapM_cons_eq_ok.mpr ⟨first, rest, stepped, later, rfl⟩⟩

theorem mapM_cons_eq_error {item : α} {error : ε} :
    (item :: items).mapM step = .error error ↔
      step item = .error error ∨ ∃ first, step item = .ok first ∧ items.mapM step = .error error := by
  rw [List.mapM_cons]
  cases step item with
  | error other => simp [bind, Except.bind]
  | ok first =>
      cases items.mapM step with
      | error other => simp [bind, Except.bind]
      | ok rest => simp [bind, Except.bind, pure, Except.pure]

/-- The first item that fails decides how all of them fail. -/
theorem exists_of_mapM_eq_error {error : ε} (failed : items.mapM step = .error error) :
    ∃ before item after, items = before ++ item :: after ∧
      (∀ earlier ∈ before, ∃ result, step earlier = .ok result) ∧ step item = .error error := by
  induction items with
  | nil => cases failed
  | cons item items ih =>
      rcases mapM_cons_eq_error.mp failed with stopped | ⟨first, stepped, later⟩
      · exact ⟨[], item, items, rfl, by simp, stopped⟩
      · obtain ⟨before, other, after, rfl, passed, stopped⟩ := ih later
        exact ⟨item :: before, other, after, rfl,
          List.forall_mem_cons.mpr ⟨⟨first, stepped⟩, passed⟩, stopped⟩

theorem mapM_congr {other : α → Except ε β} (alike : ∀ item ∈ items, step item = other item) :
    items.mapM step = items.mapM other := by
  induction items with
  | nil => rfl
  | cons item items ih =>
      rw [List.forall_mem_cons] at alike
      rw [List.mapM_cons, List.mapM_cons, alike.1, ih alike.2]

theorem mapM_eq_ok {made : α → β} (steps : ∀ item ∈ items, step item = .ok (made item)) :
    items.mapM step = .ok (items.map made) := by
  induction items with
  | nil => rfl
  | cons item items ih =>
      rw [List.forall_mem_cons] at steps
      exact mapM_cons_eq_ok.mpr ⟨_, _, steps.1, ih steps.2, rfl⟩

/-- When items can fail in one way only, and one does, all of them fail in that way. -/
theorem mapM_eq_error {error : ε} (alike : ∀ item ∈ items, ∀ other, step item = .error other → other = error)
    {item : α} (member : item ∈ items) (failed : step item = .error error) :
    items.mapM step = .error error := by
  cases mapped : items.mapM step with
  | error other =>
      obtain ⟨before, first, after, rfl, -, stopped⟩ := exists_of_mapM_eq_error mapped
      rw [alike first (by simp) other stopped]
  | ok results =>
      obtain ⟨result, stepped⟩ := exists_mapM_iff.mp ⟨results, mapped⟩ item member
      rw [failed] at stepped
      cases stepped

section Distinct

variable [BEq α] [LawfulBEq α]

theorem nodup_eraseDups (items : List α) : items.eraseDups.Nodup := by
  induction bound : items.length using Nat.strongRecOn generalizing items with
  | ind bound ih =>
      subst bound
      cases items with
      | nil => simp
      | cons item items =>
          rw [List.eraseDups_cons, List.nodup_cons]
          have shorter := List.length_filter_le (fun other => !other == item) items
          exact ⟨by simp, ih _ (by simp only [List.length_cons]; omega) _ rfl⟩

theorem eraseDups_of_nodup (distinct : items.Nodup) : items.eraseDups = items := by
  induction items with
  | nil => rfl
  | cons item items ih =>
      rw [List.nodup_cons] at distinct
      have others : items.filter (fun other => !other == item) = items := by
        rw [List.filter_eq_self]
        intro other member
        have different : other ≠ item := fun same => distinct.1 (same ▸ member)
        simpa using different
      rw [List.eraseDups_cons, others, ih distinct.2]

theorem eraseDups_filter (keep : α → Bool) (items : List α) :
    (items.filter keep).eraseDups = items.eraseDups.filter keep := by
  induction bound : items.length using Nat.strongRecOn generalizing items with
  | ind bound ih =>
      subst bound
      cases items with
      | nil => rfl
      | cons item items =>
          have shorter := List.length_filter_le (fun other => !other == item) items
          have later := ih _ (by simp only [List.length_cons]; omega)
            (items.filter fun other => !other == item) rfl
          rw [List.eraseDups_cons]
          by_cases kept : keep item = true
          · rw [List.filter_cons_of_pos kept, List.filter_cons_of_pos kept, List.eraseDups_cons, ← later,
              List.filter_filter, List.filter_filter]
            simp only [Bool.and_comm]
          · rw [List.filter_cons_of_neg kept, List.filter_cons_of_neg kept, ← later, List.filter_filter]
            congr 1
            refine List.filter_congr fun other member => ?_
            by_cases same : other = item
            · simp [same, kept]
            · simp [same]

theorem eraseDups_eraseDups_append (first second : List α) :
    (first.eraseDups ++ second).eraseDups = (first ++ second).eraseDups := by
  have alike : second.removeAll first.eraseDups = second.removeAll first := by
    refine List.filter_congr fun item member => ?_
    simp
  rw [List.eraseDups_append, List.eraseDups_append, alike, eraseDups_of_nodup (nodup_eraseDups first)]

theorem eraseDups_append_eraseDups (first second : List α) :
    (first ++ second.eraseDups).eraseDups = (first ++ second).eraseDups := by
  rw [List.eraseDups_append, List.eraseDups_append, List.removeAll, List.removeAll, eraseDups_filter,
    eraseDups_filter, eraseDups_of_nodup (nodup_eraseDups second)]

theorem eraseDups_flatMap_eraseDups {γ : Type} (parts : List γ) (items : γ → List α) :
    (parts.flatMap fun part => (items part).eraseDups).eraseDups = (parts.flatMap items).eraseDups := by
  induction parts with
  | nil => rfl
  | cons part parts ih =>
      rw [List.flatMap_cons, List.flatMap_cons, eraseDups_eraseDups_append, ← eraseDups_append_eraseDups, ih,
        eraseDups_append_eraseDups]

end Distinct

end PathSearch
