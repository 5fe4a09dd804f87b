import PathSearch.Proofs.Glob.Segment

/-! Forms read as tests of names: a form accepts the joined names when its segments consume them. -/

namespace PathSearch.Glob

/-- A name of a path in one line. -/
structure IsPlainName (name : Text) : Prop where
  some : name ≠ []
  clear : '/' ∉ name
  inLine : '\n' ∉ name

/-- The names with a slash in front of each. -/
def below (names : List Text) : Text := Text.join '/' ([] :: names)

theorem below_nil : below [] = [] := rfl

theorem below_of_ne_nil {names : List Text} (some : names ≠ []) :
    below names = '/' :: Text.join '/' names := Text.join_cons '/' [] some

theorem join_cons_eq (name : Text) (names : List Text) :
    Text.join '/' (name :: names) = name ++ below names := by
  cases names with
  | nil => simp [below_nil, Text.join]
  | cons next rest => rw [Text.join_cons '/' name (by simp), below_of_ne_nil (by simp)]

theorem below_append (first : List Text) {second : List Text} (some : second ≠ []) :
    below (first ++ second) = below first ++ below second := by
  rw [below, ← List.cons_append, Text.join_append '/' (by simp) some, below_of_ne_nil some]
  rfl

section Plain

variable {names : List Text} (plain : ∀ name ∈ names, IsPlainName name)

include plain

theorem isClosed_join : IsClosed (Text.join '/' names) where
  inLine := Text.notMem_join (by decide) fun name held => (plain name held).inLine
  closed := by
    intro before same
    have some : names ≠ [] := by
      intro none
      subst none
      simp [Text.join] at same
    have split := Text.eq_append_of_join_eq some (fun name held => (plain name held).clear) same
    have empty : [] ∈ names := by simp [split, Text.split]
    exact (plain [] empty).some rfl

theorem isClosed_below : IsClosed (below names) := by
  by_cases none : names = []
  · subst none
    exact ⟨by simp [below_nil], by simp [below_nil]⟩
  · have closed := isClosed_join plain
    rw [below_of_ne_nil none]
    refine ⟨by simpa using closed.inLine, ?_⟩
    intro before same
    cases before with
    | nil =>
        have empty : Text.join '/' names = [] := by simpa using same
        obtain ⟨name, rest, rfl⟩ := List.exists_cons_of_ne_nil none
        rw [join_cons_eq] at empty
        exact (plain name (by simp)).some (List.append_eq_nil_iff.mp empty).1
    | cons first before =>
        simp only [List.cons_append, List.cons.injEq] at same
        exact closed.closed before same.2

/-- A slash in the joined names stands between two of them. -/
theorem exists_append_of_join_eq {start rest : Text}
    (same : Text.join '/' names = start ++ '/' :: rest) :
    ∃ first second, names = first ++ second ∧ first ≠ [] ∧ second ≠ [] ∧
      start = Text.join '/' first ∧ rest = Text.join '/' second := by
  have some : names ≠ [] := by
    intro none
    subst none
    simp [Text.join] at same
  have split := Text.eq_append_of_join_eq some (fun name held => (plain name held).clear) same
  exact ⟨_, _, split, Text.split_ne_nil '/' start, Text.split_ne_nil '/' rest,
    (Text.join_split '/' start).symm, (Text.join_split '/' rest).symm⟩

theorem exists_append_of_below_eq {start rest : Text} (same : below names = start ++ '/' :: rest) :
    ∃ first second, names = first ++ second ∧ second ≠ [] ∧ start = below first ∧
      '/' :: rest = below second := by
  have clear : ∀ piece ∈ [] :: names, '/' ∉ piece := by
    intro piece held
    rcases List.mem_cons.mp held with rfl | held
    · simp
    · exact (plain piece held).clear
  have split := Text.eq_append_of_join_eq (by simp) clear same
  obtain ⟨piece, first, shape⟩ := List.exists_cons_of_ne_nil (Text.split_ne_nil '/' start)
  rw [shape, List.cons_append, List.cons.injEq] at split
  obtain ⟨rfl, names⟩ := split
  refine ⟨first, Text.split '/' rest, names, Text.split_ne_nil '/' rest, ?_, ?_⟩
  · rw [below, ← shape, Text.join_split]
  · rw [below_of_ne_nil (Text.split_ne_nil '/' rest), Text.join_split]

theorem exists_cons_of_join_eq {name beyond : Text} (some : names ≠ [])
    (clear : '/' ∉ name) (next : beyond = [] ∨ ∃ rest, beyond = '/' :: rest)
    (same : Text.join '/' names = name ++ beyond) :
    ∃ later, names = name :: later ∧ beyond = below later := by
  have free := fun piece held => (plain piece held).clear
  rcases next with rfl | ⟨rest, rfl⟩
  · refine ⟨[], ?_, rfl⟩
    have split := Text.split_join some free
    rw [same, List.append_nil, Text.split_eq_singleton clear] at split
    exact split.symm
  · have split := Text.eq_append_of_join_eq some free same
    rw [Text.split_eq_singleton clear] at split
    refine ⟨Text.split '/' rest, split, ?_⟩
    rw [below_of_ne_nil (Text.split_ne_nil '/' rest), Text.join_split]

theorem exists_cons_of_below_eq {name beyond : Text} (clear : '/' ∉ name)
    (next : beyond = [] ∨ ∃ rest, beyond = '/' :: rest)
    (same : below names = '/' :: (name ++ beyond)) :
    ∃ later, names = name :: later ∧ beyond = below later := by
  have some : names ≠ [] := by
    intro none
    subst none
    simp [below_nil] at same
  rw [below_of_ne_nil some, List.cons.injEq] at same
  exact exists_cons_of_join_eq plain some clear next same.2

end Plain

theorem takes_globstar {isLast : Prop} {taken : List Text} :
    Takes globstar isLast taken ↔ (isLast → taken ≠ []) := by
  simp [Takes, globstar, isStarRun]

theorem takes_simple {segment : Text} (single : crosses segment = false) {isLast : Prop}
    {taken : List Text} :
    Takes segment isLast taken ↔ ∃ name, taken = [name] ∧ Wild segment name := by
  have few : isStarRun segment ≠ true := by
    intro stars
    rw [crosses_of_isStarRun stars] at single
    simp at single
  simp only [Takes, if_neg few, single, Bool.false_eq_true, if_false]

theorem consumes_last_globstar {names : List Text} : Consumes [globstar] names ↔ names ≠ [] := by
  rw [consumes_cons_iff]
  constructor
  · intro found
    obtain ⟨taken, later, rfl, takes, consumes⟩ := found
    cases consumes_nil_iff.mp consumes
    simpa using takes_globstar.mp takes rfl
  · intro some
    exact ⟨names, [], by simp, takes_globstar.mpr fun _ => some, .nil⟩

theorem consumes_globstar {next : Text} {rest names : List Text} :
    Consumes (globstar :: next :: rest) names ↔
      ∃ taken later, names = taken ++ later ∧ Consumes (next :: rest) later := by
  rw [consumes_cons_iff]
  simp [takes_globstar]

theorem consumes_simple {segment : Text} (single : crosses segment = false)
    {rest names : List Text} :
    Consumes (segment :: rest) names ↔
      ∃ name later, names = name :: later ∧ Wild segment name ∧ Consumes rest later := by
  rw [consumes_cons_iff]
  constructor
  · intro found
    obtain ⟨taken, later, rfl, takes, consumes⟩ := found
    obtain ⟨name, rfl, wild⟩ := (takes_simple single).mp takes
    exact ⟨name, later, rfl, wild, consumes⟩
  · intro found
    obtain ⟨name, later, rfl, wild, consumes⟩ := found
    exact ⟨[name], later, rfl, (takes_simple single).mpr ⟨name, rfl, wild⟩, consumes⟩

/-- What has to come after a slash starts with one. -/
theorem exists_slash_of_fits {segments : List Text} {text : Text} (some : segments ≠ [])
    (fits : Fits (coveringFrom? true segments) text) : ∃ rest, text = '/' :: rest := by
  induction segments generalizing text with
  | nil => exact absurd rfl some
  | cons segment segments ih =>
      cases segments with
      | nil =>
          by_cases last : segment = globstar
          · subst last
            exact fits_last_globstar.mp fits
          · by_cases named : segment = star
            · subst named
              obtain ⟨name, beyond, rfl, -⟩ := fits_last_star.mp fits
              exact ⟨name ++ beyond, rfl⟩
            · obtain ⟨_, name, beyond, -, rfl, -⟩ := (fits_last last named).mp fits
              exact ⟨name ++ beyond, rfl⟩
      | cons next rest =>
          by_cases across : segment = globstar
          · subst across
            obtain ⟨crossed, beyond, rfl, covers, inner⟩ := fits_globstar.mp fits
            rcases covers with rfl | ⟨names, -, -, rfl⟩
            · exact ih (by simp) inner
            · exact ⟨names ++ beyond, rfl⟩
          · obtain ⟨_, name, beyond, -, rfl, -⟩ := (fits_segment across).mp fits
            exact ⟨name ++ beyond, rfl⟩

/-- Where a segment is not the last, there is a slash behind it. -/
theorem slash_mem_of_fits {slash : Bool} {segment next text : Text} {rest : List Text}
    (other : segment ≠ globstar)
    (fits : Fits (coveringFrom? slash (segment :: next :: rest)) text) : '/' ∈ text := by
  obtain ⟨_, name, beyond, -, rfl, -, inner⟩ := (fits_segment other).mp fits
  obtain ⟨ending, rfl⟩ := exists_slash_of_fits (List.cons_ne_nil next rest) inner
  simp

/-- Whether the slash in front of the first segment is still to come makes no other difference. -/
theorem fits_slash {segment text : Text} {rest : List Text} (other : segment ≠ globstar) :
    Fits (coveringFrom? true (segment :: rest)) ('/' :: text) ↔
      Fits (coveringFrom? false (segment :: rest)) text := by
  cases rest with
  | nil =>
      by_cases named : segment = star
      · subst named
        rw [fits_last_star, fits_last_star]
        simp [leadText]
      · rw [fits_last other named, fits_last other named]
        simp [leadText]
  | cons next rest =>
      rw [fits_segment other, fits_segment other]
      simp [leadText]

section Names

variable {names : List Text} (plain : ∀ name ∈ names, IsPlainName name)

include plain

theorem eq_nil_of_join_eq_nil (empty : Text.join '/' names = []) : names = [] := by
  cases names with
  | nil => rfl
  | cons name others =>
      rw [join_cons_eq] at empty
      exact absurd (List.append_eq_nil_iff.mp empty).1 (plain name (List.mem_cons_self ..)).some

omit plain in
theorem eq_nil_of_below_eq_nil (empty : below names = []) : names = [] := by
  by_cases none : names = []
  · exact none
  · simp [below_of_ne_nil none] at empty

/-- Directories between two names are any names in a row. -/
theorem between_covers_below : Piece.between.Covers (below names) := by
  by_cases none : names = []
  · exact .inl (by rw [none]; rfl)
  · refine .inr ⟨Text.join '/' names, ?_, (isClosed_join plain).inLine, below_of_ne_nil none⟩
    exact fun empty => none (eq_nil_of_join_eq_nil plain empty)

theorem fits_below_last {segment : Text} (simple : IsSimple segment) :
    Fits (coveringFrom? true [segment]) (below names) ↔ Consumes [segment] names := by
  by_cases last : segment = globstar
  · subst last
    rw [fits_last_globstar, consumes_last_globstar]
    constructor
    · rintro ⟨beyond, same⟩ rfl
      simp [below_nil] at same
    · intro some
      exact ⟨_, below_of_ne_nil some⟩
  · have single := simple.single_of_ne last
    rw [fits_single simple last (isClosed_below plain), consumes_simple single]
    constructor
    · intro found
      obtain ⟨name, same, -, wild⟩ := found
      have shape : below names = '/' :: (name ++ []) := by simpa [leadText] using same
      obtain ⟨rest, rfl, finished⟩ := exists_cons_of_below_eq plain
        (wild.slash_notMem simple.clear single) (.inl rfl) shape
      obtain rfl := eq_nil_of_below_eq_nil finished.symm
      exact ⟨name, [], rfl, wild, .nil⟩
    · intro found
      obtain ⟨name, rest, rfl, wild, consumes⟩ := found
      cases consumes_nil_iff.mp consumes
      exact ⟨name, rfl, (plain name (List.mem_cons_self ..)).some, wild⟩

section Step

/-! One segment in front of others, of which `later` says what they accept behind a slash. -/

variable {segment next : Text} {rest : List Text}
  (later : ∀ {left : List Text}, (∀ name ∈ left, IsPlainName name) →
    (Fits (coveringFrom? true (next :: rest)) (below left) ↔ Consumes (next :: rest) left))

include later

theorem fits_below_globstar :
    Fits (coveringFrom? true (globstar :: next :: rest)) (below names) ↔
      Consumes (globstar :: next :: rest) names := by
  rw [fits_globstar, consumes_globstar]
  constructor
  · intro found
    obtain ⟨crossed, beyond, same, -, inner⟩ := found
    obtain ⟨ending, rfl⟩ := exists_slash_of_fits (by simp) inner
    obtain ⟨taken, left, rfl, -, -, following⟩ := exists_append_of_below_eq plain same
    rw [following] at inner
    have held := fun name member => plain name (List.mem_append_right _ member)
    exact ⟨taken, left, rfl, (later held).mp inner⟩
  · intro found
    obtain ⟨taken, left, rfl, consumes⟩ := found
    have before := fun name member => plain name (List.mem_append_left _ member)
    have held := fun name member => plain name (List.mem_append_right _ member)
    have inner := (later held).mpr consumes
    have some : left ≠ [] := by
      intro none
      subst none
      obtain ⟨_, same⟩ := exists_slash_of_fits (by simp) inner
      simp [below_nil] at same
    exact ⟨below taken, below left, below_append taken some, between_covers_below before, inner⟩

theorem fits_below_simple (simple : IsSimple segment) (other : segment ≠ globstar) :
    Fits (coveringFrom? true (segment :: next :: rest)) (below names) ↔
      Consumes (segment :: next :: rest) names := by
  have single := simple.single_of_ne other
  rw [fits_simple simple other, consumes_simple single]
  constructor
  · intro found
    obtain ⟨name, beyond, same, ⟨-, wild⟩, inner⟩ := found
    have shape : below names = '/' :: (name ++ beyond) := by simpa [leadText] using same
    obtain ⟨left, rfl, rfl⟩ := exists_cons_of_below_eq plain (wild.slash_notMem simple.clear single)
      (.inr (exists_slash_of_fits (by simp) inner)) shape
    have held := fun name member => plain name (List.mem_cons_of_mem _ member)
    exact ⟨name, left, rfl, wild, (later held).mp inner⟩
  · intro found
    obtain ⟨name, left, rfl, wild, consumes⟩ := found
    have held := fun name member => plain name (List.mem_cons_of_mem _ member)
    have inner := (later held).mpr consumes
    refine ⟨name, below left, ?_, ⟨(plain name (by simp)).some, wild⟩, inner⟩
    rw [below_of_ne_nil (by simp), join_cons_eq]
    rfl

end Step

/-- Segments that each follow a slash. -/
theorem fits_below {segments : List Text} (simple : ∀ segment ∈ segments, IsSimple segment)
    (some : segments ≠ []) :
    Fits (coveringFrom? true segments) (below names) ↔ Consumes segments names := by
  induction segments generalizing names with
  | nil => exact absurd rfl some
  | cons segment segments ih =>
      have first := simple segment (List.mem_cons_self ..)
      cases segments with
      | nil => exact fits_below_last plain first
      | cons next rest =>
          have later : ∀ {left : List Text}, (∀ name ∈ left, IsPlainName name) →
              (Fits (coveringFrom? true (next :: rest)) (below left) ↔ Consumes (next :: rest) left) :=
            fun held => ih held (fun one inside => simple one (List.mem_cons_of_mem _ inside)) (by simp)
          by_cases across : segment = globstar
          · rw [across]
            exact fits_below_globstar plain later
          · exact fits_below_simple plain later first across

/-- Segments of which the first begins the path. -/
theorem fits_join {segment : Text} {rest : List Text} (other : segment ≠ globstar)
    (simple : ∀ one ∈ segment :: rest, IsSimple one) :
    Fits (coveringFrom? false (segment :: rest)) (Text.join '/' names) ↔
      Consumes (segment :: rest) names := by
  by_cases none : names = []
  · subst none
    have first := simple segment (List.mem_cons_self ..)
    constructor
    · intro fits
      cases rest with
      | nil =>
          have closed : IsClosed (Text.join '/' []) := isClosed_join (by simp)
          obtain ⟨name, same, some, -⟩ := (fits_single first other closed).mp fits
          exact absurd same.symm (by simpa [leadText, Text.join] using some)
      | cons next rest =>
          obtain ⟨name, beyond, same, ⟨some, -⟩, -⟩ := (fits_simple first other).mp fits
          obtain ⟨empty, -⟩ := List.append_eq_nil_iff.mp same.symm
          exact absurd empty (by simpa [leadText] using some)
    · intro consumes
      obtain ⟨name, later, same, -⟩ := (consumes_simple (first.single_of_ne other)).mp consumes
      simp at same
  · rw [← fits_slash other, ← below_of_ne_nil none]
    exact fits_below plain simple (by simp)

/-- Any directories before the segment that follows a globstar. -/
theorem fits_above_join {segment : Text} {rest : List Text} (other : segment ≠ globstar)
    (simple : ∀ one ∈ segment :: rest, IsSimple one) :
    Fits (covering? (globstar :: segment :: rest)) (Text.join '/' names) ↔
      Consumes (globstar :: segment :: rest) names := by
  rw [fits_above, consumes_globstar]
  constructor
  · intro found
    obtain ⟨crossed, beyond, same, covers, fits⟩ := found
    rcases covers with rfl | ⟨start, -, -, rfl⟩
    · exact ⟨[], names, rfl, (fits_join plain other simple).mp (same ▸ fits)⟩
    · obtain ⟨first, second, rfl, -, -, -, rfl⟩ :=
        exists_append_of_join_eq plain (by simpa using same)
      have held := fun name member => plain name (List.mem_append_right _ member)
      exact ⟨first, second, rfl, (fits_join held other simple).mp fits⟩
  · intro found
    obtain ⟨taken, later, rfl, consumes⟩ := found
    have held := fun name member => plain name (List.mem_append_right _ member)
    have fits := (fits_join held other simple).mpr consumes
    by_cases none : taken = []
    · subst none
      exact ⟨[], Text.join '/' later, rfl, .inl rfl, fits⟩
    · have some : later ≠ [] := by
        intro equal
        subst equal
        obtain ⟨name, left, same, -⟩ :=
          (consumes_simple ((simple segment (by simp)).single_of_ne other)).mp consumes
        simp at same
      have before := fun name member => plain name (List.mem_append_left _ member)
      refine ⟨Text.join '/' taken ++ ['/'], Text.join '/' later, ?_, .inr ⟨_, ?_, ?_, rfl⟩, fits⟩
      · simp [Text.join_append '/' none some]
      · exact fun empty => none (eq_nil_of_join_eq_nil before empty)
      · exact (isClosed_join before).inLine

end Names

end PathSearch.Glob
