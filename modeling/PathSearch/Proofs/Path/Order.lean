import PathSearch.Path.Basic

/-! The order of paths is total and tells different paths apart, so a sorted list without repetition
depends on its members only. -/

namespace PathSearch

section Lexicographic

variable {α : Type} [DecidableEq α] {le : α → α → Bool}

theorem lexLe_total (total : ∀ a b, (le a b || le b a) = true) (first second : List α) :
    (lexLe le first second || lexLe le second first) = true := by
  induction first generalizing second with
  | nil => simp [lexLe]
  | cons a first ih =>
      cases second with
      | nil => simp [lexLe]
      | cons b second =>
          by_cases same : a = b
          · subst same
            simpa [lexLe] using ih second
          · simpa [lexLe, same, Ne.symm same] using total a b

theorem lexLe_antisymm (antisymm : ∀ a b, le a b = true → le b a = true → a = b)
    {first second : List α} (below : lexLe le first second = true)
    (above : lexLe le second first = true) : first = second := by
  induction first generalizing second with
  | nil =>
      cases second with
      | nil => rfl
      | cons b second => simp [lexLe] at above
  | cons a first ih =>
      cases second with
      | nil => simp [lexLe] at below
      | cons b second =>
          by_cases same : a = b
          · subst same
            rw [ih (by simpa [lexLe] using below) (by simpa [lexLe] using above)]
          · have forth : le a b = true := by simpa [lexLe, same] using below
            have back : le b a = true := by simpa [lexLe, Ne.symm same] using above
            exact absurd (antisymm a b forth back) same

theorem lexLe_trans (antisymm : ∀ a b, le a b = true → le b a = true → a = b)
    (trans : ∀ a b c, le a b = true → le b c = true → le a c = true)
    {first second third : List α} (below : lexLe le first second = true)
    (above : lexLe le second third = true) : lexLe le first third = true := by
  induction first generalizing second third with
  | nil => simp [lexLe]
  | cons a first ih =>
      cases second with
      | nil => simp [lexLe] at below
      | cons b second =>
          cases third with
          | nil => simp [lexLe] at above
          | cons c third =>
              by_cases left : a = b
              · subst left
                by_cases right : a = c
                · subst right
                  have inner := ih (by simpa [lexLe] using below) (by simpa [lexLe] using above)
                  simpa [lexLe] using inner
                · simpa [lexLe, right] using above
              · have forth : le a b = true := by simpa [lexLe, left] using below
                by_cases right : b = c
                · subst right
                  simpa [lexLe, left] using forth
                · have onward : le b c = true := by simpa [lexLe, right] using above
                  have apart : a ≠ c := by
                    intro same
                    subst same
                    exact left (antisymm a b forth onward)
                  simpa [lexLe, apart] using trans a b c forth onward

end Lexicographic

namespace Text

theorem le_total (first second : Text) : (le first second || le second first) = true :=
  lexLe_total (fun one other => by simpa using Nat.le_total one.toNat other.toNat) first second

theorem eq_of_toNat_le (one other : Char) (below : decide (one.toNat ≤ other.toNat) = true)
    (above : decide (other.toNat ≤ one.toNat) = true) : one = other := by
  have same := Nat.le_antisymm (of_decide_eq_true below) (of_decide_eq_true above)
  exact Char.ext (UInt32.toNat_inj.mp same)

theorem le_antisymm {first second : Text} (below : le first second = true)
    (above : le second first = true) : first = second :=
  lexLe_antisymm eq_of_toNat_le below above

theorem le_trans {first second third : Text} (below : le first second = true)
    (above : le second third = true) : le first third = true := by
  refine lexLe_trans eq_of_toNat_le ?_ below above
  intro one other another forth onward
  simp only [decide_eq_true_eq] at forth onward ⊢
  exact Nat.le_trans forth onward

end Text

namespace Path

/-- A root starts with a slash, which no name contains, so the parts tell where the names begin. -/
theorem eq_of_parts_eq {first second : Path} (same : first.parts = second.parts) :
    first = second := by
  obtain ⟨anchor, names, named⟩ := first
  obtain ⟨other, others, othersNamed⟩ := second
  have rooted : ∀ {rest : List Text} {root : Text}, (∀ name ∈ root :: rest, IsName name) →
      '/' ∉ root := fun held => (held _ (List.mem_cons_self ..)).2.1
  cases anchor <;> cases other <;> simp only [parts, Anchor.text] at same
  · exact ext rfl same
  · subst same
    exact absurd (by simp) (rooted named)
  · subst same
    exact absurd (by simp) (rooted named)
  · subst same
    exact absurd (by simp) (rooted othersNamed)
  · exact ext rfl (List.cons.inj same).2
  · simp at same
  · subst same
    exact absurd (by simp) (rooted othersNamed)
  · simp at same
  · exact ext rfl (List.cons.inj same).2

theorem le_total (first second : Path) : (le first second || le second first) = true :=
  lexLe_total Text.le_total first.parts second.parts

theorem le_antisymm {first second : Path} (below : le first second = true)
    (above : le second first = true) : first = second :=
  eq_of_parts_eq (lexLe_antisymm (fun _ _ => Text.le_antisymm) below above)

theorem le_trans {first second third : Path} (below : le first second = true)
    (above : le second third = true) : le first third = true :=
  lexLe_trans (fun _ _ => Text.le_antisymm) (fun _ _ _ => Text.le_trans) below above

theorem sort_pairwise (paths : List Path) :
    (sort paths).Pairwise fun first second => le first second = true := by
  have trans : ∀ first second third, le first second = true → le second third = true →
      le first third = true := fun _ _ _ => le_trans
  exact List.pairwise_mergeSort trans le_total paths

theorem sort_perm (paths : List Path) : (sort paths).Perm paths := List.mergeSort_perm paths le

theorem sort_eq_of_perm {first second : List Path} (perm : first.Perm second) :
    sort first = sort second := by
  have sorted : (sort first).Perm (sort second) :=
    ((sort_perm first).trans perm).trans (sort_perm second).symm
  refine sorted.eq_of_pairwise ?_ (sort_pairwise first) (sort_pairwise second)
  intro one other _ _ below above
  exact le_antisymm below above

theorem sort_eq_of_mem_iff {first second : List Path} (distinct : first.Nodup)
    (otherDistinct : second.Nodup) (members : ∀ path, path ∈ first ↔ path ∈ second) :
    sort first = sort second :=
  sort_eq_of_perm ((List.perm_ext_iff_of_nodup distinct otherDistinct).mpr members)

end Path

end PathSearch
