import PathSearch.Text.Basic

/-! Splitting and joining undo each other on pieces that are free of the separator. -/

namespace PathSearch.Text

variable {separator : Char}

theorem split_eq_singleton {text : Text} (absent : separator ∉ text) :
    text.split separator = [text] := by
  induction text with
  | nil => rfl
  | cons character rest ih =>
      simp only [List.mem_cons, not_or] at absent
      simp only [split, if_neg (Ne.symm absent.1), ih absent.2]

/-- The first separator is the one with none before it. -/
theorem splitFirst?_eq_some_iff {text before after : Text} :
    text.splitFirst? separator = some (before, after) ↔
      text = before ++ separator :: after ∧ separator ∉ before := by
  induction text generalizing before after with
  | nil => simp [splitFirst?]
  | cons character rest ih =>
      by_cases same : character = separator
      · simp only [splitFirst?, if_pos same, Option.some.injEq, Prod.mk.injEq]
        constructor
        · intro found
          obtain ⟨rfl, rfl⟩ := found
          simp [same]
        · intro found
          obtain ⟨shape, absent⟩ := found
          cases before with
          | nil => exact ⟨rfl, (List.cons.inj shape).2⟩
          | cons first before =>
              have start := (List.cons.inj shape).1
              simp [← start, same] at absent
      · simp only [splitFirst?, if_neg same, Option.map_eq_some_iff, Prod.exists, ih]
        constructor
        · intro found
          obtain ⟨inner, beyond, ⟨rfl, absent⟩, shape⟩ := found
          cases shape
          simp [absent, Ne.symm same]
        · intro found
          obtain ⟨shape, absent⟩ := found
          cases before with
          | nil => exact absurd (List.cons.inj shape).1 same
          | cons first before =>
              obtain ⟨rfl, rfl⟩ := List.cons.inj shape
              exact ⟨before, after, ⟨rfl, fun member => absent (List.mem_cons_of_mem _ member)⟩, rfl⟩

theorem split_append (separator : Char) (first second : Text) :
    (first ++ separator :: second).split separator =
      first.split separator ++ second.split separator := by
  induction first with
  | nil => simp [split]
  | cons character first ih =>
      by_cases same : character = separator
      · simp [split, same, ih]
      · obtain ⟨piece, pieces, shape⟩ := List.exists_cons_of_ne_nil (split_ne_nil separator first)
        rw [shape] at ih
        simp [split, same, shape, ih]

theorem split_terminated {separator : Char} {pieces : List Text}
    (clear : ∀ piece ∈ pieces, separator ∉ piece) :
    split separator (pieces.flatMap fun piece => piece ++ [separator]) = pieces ++ [[]] := by
  induction pieces with
  | nil => rfl
  | cons piece pieces ih =>
      rw [List.forall_mem_cons] at clear
      rw [List.flatMap_cons, List.append_assoc, List.singleton_append, split_append,
        split_eq_singleton clear.1, ih clear.2]
      rfl

/-- What is added without a separator belongs to the last piece. -/
theorem exists_split_append {tail : Text} (absent : separator ∉ tail) (text : Text) :
    ∃ before last, text.split separator = before ++ [last] ∧
      (text ++ tail).split separator = before ++ [last ++ tail] := by
  induction text with
  | nil => exact ⟨[], [], rfl, split_eq_singleton absent⟩
  | cons character text ih =>
      obtain ⟨before, last, alone, longer⟩ := ih
      rw [List.cons_append]
      by_cases same : character = separator
      · exact ⟨[] :: before, last, by simp [split, same, alone], by simp [split, same, longer]⟩
      · cases before with
        | nil =>
            rw [List.nil_append] at alone longer
            exact ⟨[], character :: last, by simp [split, same, alone], by simp [split, same, longer]⟩
        | cons first before =>
            rw [List.cons_append] at alone longer
            exact ⟨(character :: first) :: before, last, by simp [split, same, alone],
              by simp [split, same, longer]⟩

theorem join_cons (separator : Char) (piece : Text) {pieces : List Text} (more : pieces ≠ []) :
    join separator (piece :: pieces) = piece ++ separator :: join separator pieces := by
  cases pieces with
  | nil => exact absurd rfl more
  | cons next pieces => rfl

theorem join_append (separator : Char) {first second : List Text} (some : first ≠ [])
    (more : second ≠ []) :
    join separator (first ++ second) = join separator first ++ separator :: join separator second := by
  induction first with
  | nil => exact absurd rfl some
  | cons piece first ih =>
      cases first with
      | nil => exact join_cons separator piece more
      | cons next rest =>
          have inner := ih (by simp)
          rw [List.cons_append, join_cons separator piece (by simp), inner,
            join_cons separator piece (by simp)]
          simp

/-- Pieces that are joined and taken as one piece of others are pieces of the whole. -/
theorem join_nested {pieces : List Text} (some : pieces ≠ []) (front behind : List Text) :
    join separator (front ++ join separator pieces :: behind) =
      join separator (front ++ (pieces ++ behind)) := by
  have inner : join separator (join separator pieces :: behind) = join separator (pieces ++ behind) := by
    by_cases alone : behind = []
    · subst alone
      rw [List.append_nil, join]
    · rw [join_cons separator _ alone, join_append separator some alone]
  by_cases none : front = []
  · subst none
    exact inner
  · rw [join_append separator none (by simp), inner, join_append separator none (by simp [some])]

theorem split_join {pieces : List Text} (some : pieces ≠ [])
    (clear : ∀ piece ∈ pieces, separator ∉ piece) :
    (join separator pieces).split separator = pieces := by
  induction pieces with
  | nil => exact absurd rfl some
  | cons piece pieces ih =>
      cases pieces with
      | nil => exact split_eq_singleton (clear piece (List.mem_cons_self ..))
      | cons next rest =>
          have later := ih (by simp) fun other member => clear other (List.mem_cons_of_mem _ member)
          rw [join_cons separator piece (by simp), split_append, later,
            split_eq_singleton (clear piece (List.mem_cons_self ..))]
          rfl

/-- A place where a separator stands in joined pieces lies between two of them. -/
theorem eq_append_of_join_eq {pieces : List Text} {first second : Text} (some : pieces ≠ [])
    (clear : ∀ piece ∈ pieces, separator ∉ piece)
    (same : join separator pieces = first ++ separator :: second) :
    pieces = first.split separator ++ second.split separator := by
  rw [← split_join some clear, same, split_append]

/-- A piece is empty only at an end of the text or between two separators in a row. -/
theorem nil_notMem_split {text : Text} (nonempty : text ≠ []) (first : text.head? ≠ some separator)
    (last : text.getLast? ≠ some separator) (apart : ¬ [separator, separator] <:+: text) :
    [] ∉ text.split separator := by
  intro member
  obtain ⟨before, after, shape⟩ := List.append_of_mem member
  have whole := join_split separator text
  rw [shape] at whole
  by_cases none : before = []
  · subst none
    by_cases alone : after = []
    · subst alone
      exact nonempty whole.symm
    · rw [List.nil_append, join_cons separator [] alone] at whole
      exact first (by rw [← whole]; rfl)
  · rw [join_append separator none (List.cons_ne_nil _ _)] at whole
    by_cases alone : after = []
    · subst alone
      exact last (by rw [← whole]; simp [join])
    · rw [join_cons separator [] alone] at whole
      exact apart ⟨join separator before, join separator after, by rw [← whole]; simp⟩

theorem mem_join_of_mem {pieces : List Text} {piece : Text} {character : Char}
    (member : piece ∈ pieces) (inside : character ∈ piece) : character ∈ join separator pieces := by
  induction pieces with
  | nil => simp at member
  | cons first rest ih =>
      cases rest with
      | nil =>
          cases List.mem_singleton.mp member
          exact inside
      | cons next rest =>
          rw [join_cons separator first (by simp)]
          rcases List.mem_cons.mp member with rfl | member
          · simp [inside]
          · simp [ih member]

theorem mem_of_mem_split {text piece : Text} {character : Char} (member : piece ∈ text.split separator)
    (inside : character ∈ piece) : character ∈ text := by
  rw [← join_split separator text]
  exact mem_join_of_mem member inside

theorem infix_of_mem_split {text piece : Text} (member : piece ∈ text.split separator) :
    piece <:+: text := by
  obtain ⟨before, after, shape⟩ := List.append_of_mem member
  have whole := join_split separator text
  rw [shape] at whole
  have ending : ∃ rest, join separator (piece :: after) = piece ++ rest := by
    by_cases last : after = []
    · exact ⟨[], by simp [last, join]⟩
    · exact ⟨_, join_cons separator piece last⟩
  obtain ⟨rest, ending⟩ := ending
  by_cases first : before = []
  · exact ⟨[], rest, by rw [← whole, first, List.nil_append, List.nil_append, ending]⟩
  · refine ⟨join separator before ++ [separator], rest, ?_⟩
    rw [← whole, join_append separator first (List.cons_ne_nil _ _), ending]
    simp

theorem notMem_join {pieces : List Text} {character : Char} (other : character ≠ separator)
    (absent : ∀ piece ∈ pieces, character ∉ piece) : character ∉ join separator pieces := by
  induction pieces with
  | nil => simp [join]
  | cons first rest ih =>
      have later := ih fun piece member => absent piece (List.mem_cons_of_mem _ member)
      have free := absent first (List.mem_cons_self ..)
      by_cases alone : rest = []
      · subst alone
        exact free
      · rw [join_cons separator first alone, List.mem_append, List.mem_cons]
        simp [free, other, later]

end PathSearch.Text
