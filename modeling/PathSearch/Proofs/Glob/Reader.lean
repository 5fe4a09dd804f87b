import PathSearch.Glob.Braces

/-! Reading braces, one character at a time: every group has options, and two slashes in a row stay together. -/

namespace PathSearch.Glob.Braced

/-- How one character changes the open groups and the elements read since the last brace or comma. -/
inductive Advances : List Open → List Braced → Char → List Open → List Braced → Prop where
  | opened {outer : List Open} {current : List Braced} :
      Advances outer current '\x7b' (⟨current, []⟩ :: outer) []
  | closed {inner : Open} {others : List Open} {current : List Braced} :
      Advances (inner :: others) current '\x7d' others
        (.group (current.reverse :: inner.options).reverse :: inner.before)
  | parted {inner : Open} {others : List Open} {current : List Braced} :
      Advances (inner :: others) current ','
        (⟨inner.before, current.reverse :: inner.options⟩ :: others) []
  | kept {outer : List Open} {current : List Braced} {character : Char}
      (opens : character ≠ '\x7b') (closes : character ≠ '\x7d') :
      Advances outer current character outer (.char character :: current)

variable {outer : List Open} {current elements : List Braced} {character : Char} {rest text : Text}

theorem advances_of_readFrom (reads : readFrom outer current (character :: rest) = .ok elements) :
    ∃ further later, Advances outer current character further later ∧
      readFrom further later rest = .ok elements := by
  cases outer with
  | nil =>
      rw [readFrom] at reads
      by_cases opens : character = '\x7b'
      · subst opens
        exact ⟨_, _, .opened, reads⟩
      · rw [if_neg opens] at reads
        by_cases closes : character = '\x7d'
        · simp [closes] at reads
        · exact ⟨_, _, .kept opens closes, by simpa [closes] using reads⟩
  | cons inner others =>
      rw [readFrom] at reads
      by_cases opens : character = '\x7b'
      · subst opens
        exact ⟨_, _, .opened, reads⟩
      · rw [if_neg opens] at reads
        by_cases closes : character = '\x7d'
        · subst closes
          exact ⟨_, _, .closed, reads⟩
        · by_cases parts : character = ','
          · subst parts
            exact ⟨_, _, .parted, reads⟩
          · exact ⟨_, _, .kept opens closes, by simpa [closes, parts] using reads⟩

theorem readFrom_slash :
    readFrom outer current ('/' :: rest) = readFrom outer (.char '/' :: current) rest := by
  cases outer with
  | nil =>
      rw [readFrom]
      rfl
  | cons inner others =>
      rw [readFrom]
      rfl

theorem mem_choicesOfAll_append {first second : List Braced} {choice : Text} :
    choice ∈ choicesOfAll (first ++ second) ↔
      ∃ start continued, start ∈ choicesOfAll first ∧ continued ∈ choicesOfAll second ∧
        choice = start ++ continued := by
  induction first generalizing choice with
  | nil => simp [choicesOfAll]
  | cons element first ih =>
      simp only [List.cons_append, choicesOfAll, List.mem_flatMap, List.mem_map, ih]
      constructor
      · intro found
        obtain ⟨start, one, _, ⟨middle, continued, two, three, rfl⟩, rfl⟩ := found
        exact ⟨start ++ middle, continued, ⟨start, one, middle, two, rfl⟩, three, by simp⟩
      · intro found
        obtain ⟨_, continued, ⟨start, one, middle, two, rfl⟩, three, rfl⟩ := found
        exact ⟨start, one, middle ++ continued, ⟨middle, continued, two, three, rfl⟩, by simp⟩

theorem mem_choicesOfOptions {options : List (List Braced)} {choice : Text} :
    choice ∈ choicesOfOptions options ↔ ∃ option ∈ options, choice ∈ choicesOfAll option := by
  induction options with
  | nil => simp [choicesOfOptions]
  | cons option options ih => simp [choicesOfOptions, ih]

theorem mem_choicesOfAll_group {options : List (List Braced)} {choice : Text} :
    choice ∈ choicesOfAll [.group options] ↔ ∃ option ∈ options, choice ∈ choicesOfAll option := by
  simp [choicesOfAll, choices, mem_choicesOfOptions]

/-- What has been read and is not yet part of a closed group. -/
def Pending (outer : List Open) (current part : List Braced) : Prop :=
  part = current.reverse ∨ ∃ opened ∈ outer, part = opened.before.reverse ∨ part ∈ opened.options

/-- All that has been read can stand for some text. -/
def Live (outer : List Open) (current : List Braced) : Prop :=
  ∀ part, Pending outer current part → ∃ choice, choice ∈ choicesOfAll part

section Step

variable {further : List Open} {later : List Braced}
  (advances : Advances outer current character further later) (live : Live outer current)

include advances live

theorem Advances.live_next : Live further later := by
  have own := live _ (.inl rfl)
  cases advances with
  | opened =>
      intro part pending
      rcases pending with rfl | ⟨opened, member, held⟩
      · exact ⟨[], by simp [choicesOfAll]⟩
      · rcases List.mem_cons.mp member with rfl | member
        · rcases held with rfl | held
          · exact own
          · simp at held
        · exact live part (.inr ⟨opened, member, held⟩)
  | @closed inner others =>
      intro part pending
      rcases pending with rfl | ⟨opened, member, held⟩
      · obtain ⟨start, first⟩ := live _ (.inr ⟨inner, List.mem_cons_self .., .inl rfl⟩)
        obtain ⟨choice, chosen⟩ := own
        rw [List.reverse_cons]
        refine ⟨start ++ choice, mem_choicesOfAll_append.mpr ⟨start, choice, first, ?_, rfl⟩⟩
        exact mem_choicesOfAll_group.mpr ⟨_, by simp, chosen⟩
      · exact live part (.inr ⟨opened, List.mem_cons_of_mem _ member, held⟩)
  | @parted inner others =>
      intro part pending
      rcases pending with rfl | ⟨opened, member, held⟩
      · exact ⟨[], by simp [choicesOfAll]⟩
      · rcases List.mem_cons.mp member with rfl | member
        · rcases held with rfl | held
          · exact live _ (.inr ⟨inner, List.mem_cons_self .., .inl rfl⟩)
          · rcases List.mem_cons.mp held with rfl | held
            · exact own
            · exact live _ (.inr ⟨inner, List.mem_cons_self .., .inr held⟩)
        · exact live part (.inr ⟨opened, List.mem_cons_of_mem _ member, held⟩)
  | kept =>
      intro part pending
      rcases pending with rfl | outside
      · obtain ⟨choice, chosen⟩ := own
        rw [List.reverse_cons]
        exact ⟨_, mem_choicesOfAll_append.mpr ⟨choice, _, chosen, List.mem_cons_self .., rfl⟩⟩
      · exact live part (.inr outside)

/-- What a part can stand for, a part of the next moment can stand for with more around it. -/
theorem Advances.exists_grown {part : List Braced} (pending : Pending outer current part) :
    ∃ grown, Pending further later grown ∧
      ∀ choice ∈ choicesOfAll part, ∃ longer ∈ choicesOfAll grown, choice <:+: longer := by
  have same : ∀ choice ∈ choicesOfAll part, ∃ longer ∈ choicesOfAll part, choice <:+: longer :=
    fun choice chosen => ⟨choice, chosen, List.infix_rfl⟩
  cases advances with
  | opened =>
      rcases pending with rfl | ⟨opened, member, held⟩
      · exact ⟨_, .inr ⟨_, List.mem_cons_self .., .inl rfl⟩, same⟩
      · exact ⟨part, .inr ⟨opened, List.mem_cons_of_mem _ member, held⟩, same⟩
  | @closed inner others =>
      obtain ⟨start, first⟩ := live _ (.inr ⟨inner, List.mem_cons_self .., .inl rfl⟩)
      obtain ⟨own, chosen⟩ := live _ (.inl rfl)
      have option : ∀ option ∈ current.reverse :: inner.options,
          ∀ choice ∈ choicesOfAll option,
            start ++ choice ∈ choicesOfAll
              (inner.before.reverse ++ [.group (current.reverse :: inner.options).reverse]) := by
        intro option member choice picked
        refine mem_choicesOfAll_append.mpr ⟨start, choice, first, ?_, rfl⟩
        exact mem_choicesOfAll_group.mpr ⟨option, List.mem_reverse.mpr member, picked⟩
      rcases pending with rfl | ⟨opened, member, held⟩
      · refine ⟨_, .inl rfl, fun choice picked => ⟨start ++ choice, ?_, start, [], by simp⟩⟩
        rw [List.reverse_cons]
        exact option _ (List.mem_cons_self ..) choice picked
      · rcases List.mem_cons.mp member with rfl | member
        · refine ⟨_, .inl rfl, fun choice picked => ?_⟩
          rw [List.reverse_cons]
          rcases held with rfl | held
          · refine ⟨choice ++ own, ?_, [], own, by simp⟩
            refine mem_choicesOfAll_append.mpr ⟨choice, own, picked, ?_, rfl⟩
            exact mem_choicesOfAll_group.mpr ⟨_, by simp, chosen⟩
          · refine ⟨start ++ choice, ?_, start, [], by simp⟩
            exact option _ (List.mem_cons_of_mem _ held) choice picked
        · exact ⟨part, .inr ⟨opened, member, held⟩, same⟩
  | @parted inner others =>
      rcases pending with rfl | ⟨opened, member, held⟩
      · exact ⟨_, .inr ⟨_, List.mem_cons_self .., .inr (List.mem_cons_self ..)⟩, same⟩
      · rcases List.mem_cons.mp member with rfl | member
        · rcases held with rfl | held
          · exact ⟨_, .inr ⟨_, List.mem_cons_self .., .inl rfl⟩, same⟩
          · exact ⟨_, .inr ⟨_, List.mem_cons_self .., .inr (List.mem_cons_of_mem _ held)⟩, same⟩
        · exact ⟨part, .inr ⟨opened, List.mem_cons_of_mem _ member, held⟩, same⟩
  | kept =>
      rcases pending with rfl | outside
      · refine ⟨_, .inl rfl, fun choice picked => ⟨choice ++ [character], ?_, [], [character], by simp⟩⟩
        rw [List.reverse_cons]
        exact mem_choicesOfAll_append.mpr ⟨choice, _, picked, List.mem_cons_self .., rfl⟩
      · exact ⟨part, .inr outside, same⟩

end Step

/-- What a part can stand for comes back in what the whole text can stand for. -/
theorem exists_longer_of_readFrom (live : Live outer current)
    (reads : readFrom outer current text = .ok elements) {part : List Braced}
    (pending : Pending outer current part) {choice : Text} (chosen : choice ∈ choicesOfAll part) :
    ∃ longer ∈ choicesOfAll elements, choice <:+: longer := by
  induction text generalizing outer current part choice with
  | nil =>
      cases outer with
      | nil =>
          rw [readFrom, Except.ok.injEq] at reads
          rcases pending with rfl | ⟨opened, member, -⟩
          · exact ⟨choice, reads ▸ chosen, List.infix_rfl⟩
          · cases member
      | cons inner others => simp [readFrom] at reads
  | cons character rest ih =>
      obtain ⟨further, later, advances, reads⟩ := advances_of_readFrom reads
      obtain ⟨grown, held, grows⟩ := advances.exists_grown live pending
      obtain ⟨middle, picked, inner⟩ := grows choice chosen
      obtain ⟨longer, last, other⟩ := ih (advances.live_next live) reads held picked
      exact ⟨longer, last, inner.trans other⟩

theorem live_nil : Live [] [] := by
  intro part pending
  rcases pending with rfl | ⟨opened, member, -⟩
  · exact ⟨[], by simp [choicesOfAll]⟩
  · cases member

/-- There is always a choice. -/
theorem exists_choice (reads : read text = .ok elements) : ∃ choice, choice ∈ choicesOfAll elements := by
  obtain ⟨longer, chosen, -⟩ :=
    exists_longer_of_readFrom live_nil reads (.inl rfl) (List.mem_singleton.mpr rfl)
  exact ⟨longer, chosen⟩

/-- Everything that has been read stands for texts of these characters alone. -/
def Spelled (property : Char → Prop) (outer : List Open) (current : List Braced) : Prop :=
  ∀ part, Pending outer current part → ∀ choice ∈ choicesOfAll part, ∀ other ∈ choice, property other

theorem Advances.spelled_next {property : Char → Prop} {further : List Open} {later : List Braced}
    (advances : Advances outer current character further later)
    (passes : character ≠ '\x7b' → character ≠ '\x7d' → property character)
    (spelled : Spelled property outer current) : Spelled property further later := by
  have own := spelled _ (.inl rfl)
  have nothing : ∀ choice ∈ choicesOfAll [], ∀ other ∈ choice, property other := by simp [choicesOfAll]
  cases advances with
  | opened =>
      intro part pending
      rcases pending with rfl | ⟨opened, member, held⟩
      · exact nothing
      · rcases List.mem_cons.mp member with rfl | member
        · rcases held with rfl | held
          · exact own
          · cases held
        · exact spelled part (.inr ⟨opened, member, held⟩)
  | @closed inner others =>
      have start := spelled _ (.inr ⟨inner, List.mem_cons_self .., .inl rfl⟩)
      intro part pending
      rcases pending with rfl | ⟨opened, member, held⟩
      · intro choice chosen
        rw [List.reverse_cons] at chosen
        obtain ⟨before, within, first, picked, rfl⟩ := mem_choicesOfAll_append.mp chosen
        obtain ⟨option, offered, picked⟩ := mem_choicesOfAll_group.mp picked
        rw [List.forall_mem_append]
        refine ⟨start before first, ?_⟩
        rcases List.mem_cons.mp (List.mem_reverse.mp offered) with rfl | offered
        · exact own within picked
        · exact spelled option (.inr ⟨inner, List.mem_cons_self .., .inr offered⟩) within picked
      · exact spelled part (.inr ⟨opened, List.mem_cons_of_mem _ member, held⟩)
  | @parted inner others =>
      intro part pending
      rcases pending with rfl | ⟨opened, member, held⟩
      · exact nothing
      · rcases List.mem_cons.mp member with rfl | member
        · rcases held with rfl | held
          · exact spelled _ (.inr ⟨inner, List.mem_cons_self .., .inl rfl⟩)
          · rcases List.mem_cons.mp held with rfl | held
            · exact own
            · exact spelled part (.inr ⟨inner, List.mem_cons_self .., .inr held⟩)
        · exact spelled part (.inr ⟨opened, List.mem_cons_of_mem _ member, held⟩)
  | kept opens closes =>
      intro part pending
      rcases pending with rfl | outside
      · intro choice chosen
        rw [List.reverse_cons] at chosen
        obtain ⟨before, last, first, picked, rfl⟩ := mem_choicesOfAll_append.mp chosen
        obtain rfl : last = [character] := List.mem_singleton.mp picked
        rw [List.forall_mem_append, List.forall_mem_singleton]
        exact ⟨own before first, passes opens closes⟩
      · exact spelled part (.inr outside)

theorem spelled_of_readFrom {property : Char → Prop}
    (passes : ∀ character ∈ text, character ≠ '\x7b' → character ≠ '\x7d' → property character)
    (spelled : Spelled property outer current) (reads : readFrom outer current text = .ok elements) :
    ∀ choice ∈ choicesOfAll elements, ∀ other ∈ choice, property other := by
  induction text generalizing outer current with
  | nil =>
      cases outer with
      | nil =>
          rw [readFrom, Except.ok.injEq] at reads
          exact reads ▸ spelled _ (.inl rfl)
      | cons inner others => simp [readFrom] at reads
  | cons character rest ih =>
      rw [List.forall_mem_cons] at passes
      obtain ⟨further, later, advances, reads⟩ := advances_of_readFrom reads
      exact ih passes.2 (advances.spelled_next passes.1 spelled) reads

/-- What a text can stand for is written in its own characters, without the braces. -/
theorem mem_of_mem_choice (reads : read text = .ok elements) {choice : Text}
    (chosen : choice ∈ choicesOfAll elements) (member : character ∈ choice) :
    character ∈ text ∧ character ≠ '\x7b' ∧ character ≠ '\x7d' := by
  have start : Spelled (fun other => other ∈ text ∧ other ≠ '\x7b' ∧ other ≠ '\x7d') [] [] := by
    intro part pending
    rcases pending with rfl | ⟨opened, held, -⟩
    · simp [choicesOfAll]
    · cases held
  exact spelled_of_readFrom (fun other held opens closes => ⟨held, opens, closes⟩) start reads
    choice chosen character member

theorem exists_choice_of_slashes (live : Live outer current)
    (reads : readFrom outer current text = .ok elements) (inside : ['/', '/'] <:+: text) :
    ∃ choice ∈ choicesOfAll elements, ['/', '/'] <:+: choice := by
  induction text generalizing outer current with
  | nil => simp at inside
  | cons character rest ih =>
      rcases List.infix_cons_iff.mp inside with first | inside
      · obtain ⟨beyond, shape⟩ := first
        simp only [List.cons_append, List.nil_append] at shape
        rw [← shape, readFrom_slash, readFrom_slash] at reads
        have once : Advances outer current '/' outer _ := .kept (by decide) (by decide)
        have twice : Advances outer (.char '/' :: current) '/' outer _ := .kept (by decide) (by decide)
        obtain ⟨choice, chosen⟩ := live _ (.inl rfl)
        have both : choice ++ ['/', '/'] ∈
            choicesOfAll (Braced.char '/' :: Braced.char '/' :: current).reverse := by
          rw [List.reverse_cons, List.reverse_cons, List.append_assoc]
          exact mem_choicesOfAll_append.mpr ⟨choice, _, chosen, List.mem_singleton.mpr rfl, rfl⟩
        obtain ⟨longer, last, within⟩ :=
          exists_longer_of_readFrom (twice.live_next (once.live_next live)) reads (.inl rfl) both
        exact ⟨longer, last, .trans ⟨choice, [], by simp⟩ within⟩
      · obtain ⟨further, later, advances, reads⟩ := advances_of_readFrom reads
        exact ih (advances.live_next live) reads inside

/-- A slash at the end is read outside of all groups. -/
theorem exists_of_readFrom_ended (reads : readFrom outer current (text ++ ['/']) = .ok elements) :
    ∃ before, elements = before ++ [.char '/'] := by
  induction text generalizing outer current with
  | nil =>
      rw [List.nil_append, readFrom_slash] at reads
      cases outer with
      | nil =>
          rw [readFrom, Except.ok.injEq, List.reverse_cons] at reads
          exact ⟨_, reads.symm⟩
      | cons inner others => simp [readFrom] at reads
  | cons character rest ih =>
      obtain ⟨further, later, -, reads⟩ := advances_of_readFrom reads
      exact ih reads

end PathSearch.Glob.Braced
