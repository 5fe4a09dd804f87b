import PathSearch.Path.Normal
import PathSearch.Proofs.Text.Split

/-!
Normal paths are the fixed points of normalization, and what a path is below a base leads back to it. What is in no
name of a path is not in its text.
-/

namespace PathSearch

namespace Path

/-- Absolute and without `..`. -/
def IsNormal (path : Path) : Prop := path.IsAbsolute ∧ up ∉ path.names

variable {current base path relative : Path}

theorem foldl_climb_of_up_notMem {anchor : Anchor} {names : List Text} (clear : up ∉ names)
    (above : List Text) : names.foldl (climb anchor) above = names.reverse ++ above := by
  induction names generalizing above with
  | nil => rfl
  | cons name names ih =>
      simp only [List.mem_cons, not_or] at clear
      have stays : climb anchor above name = name :: above := by
        simp [climb, Ne.symm clear.1]
      rw [List.foldl_cons, stays, ih clear.2]
      simp

theorem up_notMem_climb {anchor : Anchor} (rooted : anchor ≠ .here) {above : List Text}
    {name : Text} (clear : up ∉ above) : up ∉ climb anchor above name := by
  unfold climb
  by_cases rises : name = up
  · rw [if_pos rises]
    cases above with
    | nil => simp [rooted]
    | cons nearest others =>
        simp only [List.mem_cons, not_or] at clear
        simp only [if_neg (Ne.symm clear.1)]
        exact clear.2
  · rw [if_neg rises]
    simp [clear, Ne.symm rises]

theorem up_notMem_foldl_climb {anchor : Anchor} (rooted : anchor ≠ .here) (names : List Text)
    {above : List Text} (clear : up ∉ above) : up ∉ names.foldl (climb anchor) above := by
  induction names generalizing above with
  | nil => exact clear
  | cons name names ih => exact ih (up_notMem_climb rooted clear)

theorem collapse_eq_self (clear : up ∉ path.names) : collapse path = path := by
  apply ext
  · rfl
  · simp [collapse, foldl_climb_of_up_notMem clear]

theorem append_of_isAbsolute (base : Path) (absolute : path.IsAbsolute) : base ++ path = path := by
  change append base path = path
  rw [append, if_pos absolute]

theorem isAbsolute_append (absolute : current.IsAbsolute) (path : Path) :
    (current ++ path).IsAbsolute := by
  change (append current path).IsAbsolute
  unfold append
  by_cases own : path.IsAbsolute
  · rwa [if_pos own]
  · rwa [if_neg own]

theorem isNormal_normalize (absolute : current.IsAbsolute) (path : Path) :
    (normalize current path).IsNormal := by
  have rooted := isAbsolute_append absolute path
  refine ⟨rooted, ?_⟩
  simp only [normalize, collapse, List.mem_reverse]
  exact up_notMem_foldl_climb rooted _ (by simp)

theorem normalize_eq_self (current : Path) (normal : path.IsNormal) :
    normalize current path = path := by
  rw [normalize, append_of_isAbsolute current normal.1, collapse_eq_self normal.2]

theorem anchor_ofText_of_isName {name : Text} (named : IsName name) : Anchor.ofText name = .here := by
  cases name with
  | nil => rfl
  | cons character rest =>
      have other : character ≠ '/' := by
        intro same
        subst same
        exact named.2.1 (by simp)
      unfold Anchor.ofText
      split
      · simp_all
      · simp_all
      · simp_all
      · rfl

theorem namesOf_of_isName {name : Text} (named : IsName name) : namesOf name = [name] := by
  simp [namesOf, Text.split_eq_singleton named.2.1, named]

/-- Appending a single name makes the path one name longer. -/
theorem append_ofText_of_isName (path : Path) {name : Text} (named : IsName name) :
    path ++ ofText name = path.child name named := by
  have relative : ¬ (ofText name).IsAbsolute := by
    simp [IsAbsolute, ofText, anchor_ofText_of_isName named]
  change append path (ofText name) = _
  rw [append, if_neg relative]
  apply ext
  · rfl
  · simp [child, ofText, namesOf_of_isName named]

theorem relativeTo?_eq_some (below : path.relativeTo? base = some relative) :
    path.anchor = base.anchor ∧ relative.anchor = .here ∧
      path.names = base.names ++ relative.names := by
  unfold relativeTo? at below
  split at below
  · rename_i inside
    obtain ⟨anchors, rest, names⟩ := inside
    cases below
    refine ⟨anchors, rfl, ?_⟩
    simp [← names]
  · simp at below

theorem relativeTo?_append (relative : ¬ path.IsAbsolute) : (base ++ path).relativeTo? base = some path := by
  have anchor : path.anchor = .here := Decidable.not_not.mp relative
  have whole : base ++ path = append base path := rfl
  rw [whole, append, if_neg relative, relativeTo?, if_pos ⟨rfl, List.prefix_append ..⟩, Option.some.injEq]
  apply ext
  · exact anchor.symm
  · exact List.drop_left

theorem relativeTo?_self : path.relativeTo? path = some here := by
  rw [relativeTo?, if_pos ⟨rfl, List.prefix_rfl⟩, Option.some.injEq]
  apply ext
  · rfl
  · exact List.drop_length

theorem exists_relativeTo? {rest : List Text} (anchors : path.anchor = base.anchor)
    (names : path.names = base.names ++ rest) :
    ∃ relative, path.relativeTo? base = some relative ∧ relative.names = rest := by
  have inside : path.anchor = base.anchor ∧ base.names <+: path.names :=
    ⟨anchors, rest, names.symm⟩
  simp only [relativeTo?, if_pos inside]
  exact ⟨_, rfl, by simp [names]⟩

theorem append_eq_of_relativeTo? (below : path.relativeTo? base = some relative) :
    base ++ relative = path := by
  obtain ⟨anchors, here, names⟩ := relativeTo?_eq_some below
  have free : ¬ relative.IsAbsolute := by simp [IsAbsolute, here]
  change append base relative = path
  apply ext
  · simp [append, free, anchors]
  · simp [append, free, names]

/-- Making a normal path relative and then absolute again changes nothing. -/
theorem normalize_append_of_relativeTo? (current : Path) (normal : path.IsNormal)
    (below : path.relativeTo? base = some relative) :
    normalize current (base ++ relative) = path := by
  rw [append_eq_of_relativeTo? below, normalize_eq_self current normal]

section Written

theorem text_eq (path : Path) :
    path.text =
      let whole := path.anchor.text ++ Text.join '/' path.names
      if whole = [] then ['.'] else whole := by
  obtain ⟨anchor, names, named⟩ := path
  cases anchor with
  | here =>
      cases names with
      | nil => rfl
      | cons name names =>
          have shown : Text.join '/' (name :: names) ≠ [] := by
            cases names with
            | nil => exact (named name (List.mem_cons_self ..)).1
            | cons next names => simp [Text.join]
          change Text.join '/' (name :: names) =
            if Text.join '/' (name :: names) = [] then ['.'] else Text.join '/' (name :: names)
          rw [if_neg shown]
  | root => rfl
  | doubleRoot => rfl

theorem notMem_text {character : Char} (slash : character ≠ '/') (dot : character ≠ '.')
    (absent : ∀ name ∈ path.names, character ∉ name) : character ∉ path.text := by
  have anchor : character ∉ path.anchor.text := by
    cases path.anchor <;> simp [Anchor.text, slash]
  rw [text_eq]
  dsimp only
  split
  · exact fun member => dot (List.mem_singleton.mp member)
  · exact fun member => (List.mem_append.mp member).elim anchor (Text.notMem_join slash absent)

theorem mem_names_append (base : Path) {name : Text} (member : name ∈ path.names) :
    name ∈ (base ++ path).names := by
  change name ∈ (append base path).names
  unfold append
  split
  · exact member
  · exact List.mem_append_right _ member

end Written

end Path

end PathSearch
