import PathSearch.Text.Blank

/-! Stripping leaves alone what has no blank at its ends. -/

namespace PathSearch.Text

variable {dropped : Char → Bool} {text : Text}

/-- What is not dropped stays, with everything behind it. -/
theorem dropWhile_ne_nil {α : Type} {test : α → Bool} {items : List α} {item : α}
    (member : item ∈ items) (kept : test item = false) : items.dropWhile test ≠ [] := by
  intro none
  have all := @List.any_dropWhile _ test items
  rw [none, List.any_nil, eq_comm, Bool.not_eq_false', List.all_eq_true] at all
  have lost := all item member
  simp [kept] at lost

theorem trimRight_eq_self (kept : ∀ last, text.getLast? = some last → dropped last = false) :
    trimRight dropped text = text := by
  rw [trimRight]
  cases turned : text.reverse with
  | nil => simpa using turned.symm
  | cons last rest =>
      have shape := congrArg List.reverse turned
      rw [List.reverse_reverse] at shape
      have same : text.getLast? = some last := by rw [List.getLast?_eq_head?_reverse, turned]; rfl
      have stays := kept last same
      rw [List.dropWhile_cons_of_neg (by simp [stays]), shape]

theorem trimRight_append {first second : Text} (shown : trimRight dropped second ≠ []) :
    trimRight dropped (first ++ second) = first ++ trimRight dropped second := by
  have some : (second.reverse.dropWhile dropped).isEmpty = false := by
    rw [trimRight, ne_eq, List.reverse_eq_nil_iff] at shown
    simpa using shown
  rw [trimRight, trimRight, List.reverse_append, List.dropWhile_append, some]
  simp

theorem trimRight_append_dropped {first second : Text}
    (lost : ∀ character ∈ second, dropped character = true) :
    trimRight dropped (first ++ second) = trimRight dropped first := by
  have turned : ∀ character ∈ second.reverse, dropped character = true :=
    fun character member => lost character (List.mem_reverse.mp member)
  rw [trimRight, List.reverse_append, List.dropWhile_append_of_pos turned, trimRight]

theorem trimRight_prefix : trimRight dropped text <+: text := by
  have ends : text.reverse.dropWhile dropped <:+ text.reverse := List.dropWhile_suffix dropped
  rw [← List.reverse_prefix, List.reverse_reverse] at ends
  exact ends

theorem exists_dropped (dropped : Char → Bool) (text : Text) :
    ∃ tail, text = trimRight dropped text ++ tail ∧ ∀ character ∈ tail, dropped character = true := by
  refine ⟨(text.reverse.takeWhile dropped).reverse, ?_, ?_⟩
  · rw [trimRight, ← List.reverse_append, List.takeWhile_append_dropWhile, List.reverse_reverse]
  · intro character member
    exact List.all_eq_true.mp List.all_takeWhile character (List.mem_reverse.mp member)

/-- Some character that is kept is left over. -/
theorem trimRight_ne_nil {character : Char} (member : character ∈ text)
    (kept : dropped character = false) : trimRight dropped text ≠ [] := by
  rw [trimRight, ne_eq, List.reverse_eq_nil_iff]
  exact dropWhile_ne_nil (List.mem_reverse.mpr member) kept

theorem kept_of_getLast?_trimRight {last : Char}
    (found : (trimRight dropped text).getLast? = some last) : dropped last = false := by
  have first := List.head?_dropWhile_not dropped text.reverse
  rw [trimRight, List.getLast?_reverse] at found
  rw [found] at first
  exact first

theorem trimLeft_eq_self (kept : ∀ first, text.head? = some first → dropped first = false) :
    trimLeft dropped text = text := by
  cases text with
  | nil => rfl
  | cons first rest =>
      have stays := kept first rfl
      rw [trimLeft, List.dropWhile_cons_of_neg (by simp [stays])]

theorem strip_subset : text.strip ⊆ text := by
  intro character member
  have inside : text.strip <+: trimLeft isBlank text := trimRight_prefix
  exact (List.dropWhile_suffix isBlank).subset (inside.subset member)

theorem isBlank_of_strip_eq_nil (empty : text.strip = []) :
    ∀ character ∈ text, isBlank character = true := by
  intro character member
  refine Bool.not_eq_false _ |>.mp fun shown => ?_
  obtain ⟨first, rest, left⟩ := List.exists_cons_of_ne_nil (dropWhile_ne_nil member shown)
  have stop := List.head?_dropWhile_not isBlank text
  rw [left] at stop
  have kept : first ∈ trimLeft isBlank text := by
    rw [trimLeft, left]
    exact List.mem_cons_self ..
  exact trimRight_ne_nil kept stop empty

theorem notMem_of_isBlank (blank : ∀ character ∈ text, isBlank character = true) {character : Char}
    (shown : isBlank character = false) : character ∉ text := by
  intro inside
  rw [blank character inside] at shown
  cases shown

theorem isBlank_last_of_strip {last : Char} (stripped : text.strip = text)
    (found : text.getLast? = some last) : isBlank last = false := by
  rw [← stripped] at found
  exact kept_of_getLast?_trimRight found

theorem isBlank_head_of_strip {first : Char} (stripped : text.strip = text)
    (found : text.head? = some first) : isBlank first = false := by
  have inside : text <+: trimLeft isBlank text := by
    have kept : trimRight isBlank (trimLeft isBlank text) <+: trimLeft isBlank text := trimRight_prefix
    rw [strip, trim] at stripped
    rwa [stripped] at kept
  have ends : trimLeft isBlank text <:+ text := List.dropWhile_suffix isBlank
  have whole : trimLeft isBlank text = text :=
    ends.eq_of_length (Nat.le_antisymm ends.length_le inside.length_le)
  have stop := List.head?_dropWhile_not isBlank text
  rw [← trimLeft, whole, found] at stop
  exact stop

theorem strip_eq_self (first : ∀ character, text.head? = some character → isBlank character = false)
    (last : ∀ character, text.getLast? = some character → isBlank character = false) :
    text.strip = text := by
  rw [strip, trim, trimLeft_eq_self first, trimRight_eq_self last]

theorem strip_strip : text.strip.strip = text.strip := by
  refine strip_eq_self (fun first found => ?_) fun last found => kept_of_getLast?_trimRight found
  have inside : text.strip <+: trimLeft isBlank text := trimRight_prefix
  obtain ⟨rest, whole⟩ := inside
  have stop := List.head?_dropWhile_not isBlank text
  rw [← trimLeft, ← whole, List.head?_append, found] at stop
  exact stop

theorem stripRight_eq_self (kept : ∀ last, text.getLast? = some last → isBlank last = false) :
    text.stripRight = text := trimRight_eq_self kept

end PathSearch.Text
