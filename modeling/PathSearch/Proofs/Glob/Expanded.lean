import PathSearch.Proofs.Glob.Line
import PathSearch.Proofs.Text.Strip

/-! Expanding the stars of a glob gives lines of simple segments, and together they test what the glob says. -/

namespace PathSearch.Glob

theorem crosses_of_splitStars?_eq_none {segment : Text} (whole : splitStars? segment = none) :
    crosses segment = false := by
  fun_induction splitStars? segment with
  | case1 => simp at whole
  | case2 character rest first ih =>
      have later := ih (by simpa using whole)
      simp only [crosses, Text.occursIn, Bool.or_eq_false_iff]
      refine ⟨?_, later⟩
      rw [← Bool.not_eq_true, List.isPrefixOf_iff_prefix]
      intro starts
      obtain ⟨following, same⟩ := starts
      obtain ⟨star, shape⟩ := List.cons.inj same
      exact first following star.symm shape.symm
  | case3 => rfl

/-- Without two stars in a row a segment stands for itself. -/
theorem spread_eq_of_single {segment : Text} (single : crosses segment = false) :
    spread segment = [[segment]] := by
  have whole : splitStars? segment = none := by
    cases found : splitStars? segment with
    | none => rfl
    | some ends =>
        have two := crosses_iff.mpr ⟨_, _, eq_of_splitStars? found⟩
        simp [single] at two
  have other : segment ≠ globstar := by
    rintro rfl
    cases single
  unfold spread
  rw [if_neg other]
  split
  · rfl
  · rename_i found
    simp [whole] at found

theorem spreadAll_eq_of_single {segments : List Text}
    (single : ∀ segment ∈ segments, crosses segment = false) : spreadAll segments = [segments] := by
  induction segments with
  | nil => rfl
  | cons segment rest ih =>
      rw [List.forall_mem_cons] at single
      simp [spreadAll, spread_eq_of_single single.1, ih single.2]

/-- The segments that a segment is spread into are made of its characters, two stars in a row stand alone in
them, and a new one has a star. -/
theorem parts_of_mem_spread {segment one : Text} {start : List Text} (member : start ∈ spread segment)
    (held : one ∈ start) :
    (one = globstar ∨ crosses one = false) ∧ (∀ character ∈ one, character ∈ segment) ∧
      (one = segment ∨ '*' ∈ one) := by
  fun_induction spread segment generalizing start with
  | case1 =>
      rw [List.mem_singleton.mp member, List.mem_singleton] at held
      exact ⟨.inl held, by simp [held], .inl held⟩
  | case2 segment other found =>
      rw [List.mem_singleton.mp member, List.mem_singleton] at held
      subst held
      exact ⟨.inr (crosses_of_splitStars?_eq_none found), by simp, .inl rfl⟩
  | case3 head tail more found shorter other =>
      obtain ⟨uncut, single⟩ := head_of_splitStars? found
      rcases List.mem_append.mp member with member | member
      · obtain ⟨apart, inside, same⟩ := shorter member held
        refine ⟨apart, fun character within => ?_, .inr ?_⟩
        · have place := inside character within
          simp only [List.mem_append, List.mem_cons] at place ⊢
          rcases place with place | place | place
          · exact .inl place
          · exact .inr (.inl place)
          · exact .inr (.inr (.inr place))
        · rcases same with rfl | star
          · simp
          · exact star
      · obtain ⟨deeper, inner, rfl⟩ := List.mem_map.mp member
        rcases List.mem_cons.mp held with rfl | held
        · refine ⟨.inr (crosses_append_star uncut single), fun character within => ?_, .inr (by simp)⟩
          simp only [List.mem_append, List.mem_singleton] at within
          rcases within with within | within
          · exact List.mem_append_left _ within
          · simp [within]
        · rcases List.mem_cons.mp held with rfl | held
          · exact ⟨.inl rfl, by simp [globstar], .inr (by simp [globstar])⟩
          · obtain ⟨apart, inside, same⟩ := other inner held
            refine ⟨apart, fun character within => ?_, .inr ?_⟩
            · exact List.mem_append_right _ (List.mem_cons_of_mem _ (inside character within))
            · rcases same with rfl | star
              · simp
              · exact star

theorem isSimple_of_mem_spread {segment : Text} {start : List Text} (nonempty : segment ≠ [])
    (clear : '/' ∉ segment) (plain : '[' ∉ segment) (member : start ∈ spread segment) :
    ∀ one ∈ start, IsSimple one := by
  intro one held
  obtain ⟨apart, inside, same⟩ := parts_of_mem_spread member held
  refine ⟨?_, fun slash => clear (inside _ slash), fun bracket => plain (inside _ bracket), apart⟩
  rcases same with rfl | star
  · exact nonempty
  · exact List.ne_nil_of_mem star

/-- Only from stars come globstars alone. -/
theorem isStarRun_of_mem_spread {segment : Text} {start : List Text} (member : start ∈ spread segment)
    (stars : ∀ one ∈ start, one = globstar) : isStarRun segment = true := by
  fun_induction spread segment generalizing start with
  | case1 => rfl
  | case2 segment other found =>
      rw [List.mem_singleton.mp member] at stars
      exact absurd (stars segment (List.mem_cons_self ..)) other
  | case3 head tail more found one other =>
      rcases List.mem_append.mp member with member | member
      · rw [isStarRun_fewer more]
        exact one member stars
      · obtain ⟨deeper, inner, rfl⟩ := List.mem_map.mp member
        have ends : head ++ ['*'] = ['*'] ++ ['*'] := stars _ (List.mem_cons_self ..)
        exact absurd (List.append_cancel_right ends) ((head_of_splitStars? found).1 [])

/-- A globstar is one of the things that two or more stars alone stand for. -/
theorem globstar_mem_spread {segment : Text} (stars : isStarRun segment = true) :
    [globstar] ∈ spread segment := by
  fun_induction spread segment with
  | case1 => exact List.mem_singleton.mpr rfl
  | case2 segment other found =>
      have two := crosses_of_isStarRun stars
      rw [crosses_of_splitStars?_eq_none found] at two
      cases two
  | case3 head tail more found fewer other =>
      rw [isStarRun_fewer more] at stars
      exact List.mem_append_left _ (fewer stars)

theorem getLast?_join_append {first second : List Text} (nonempty : first ≠ []) (more : second ≠ []) :
    (Text.join '/' (first ++ second)).getLast? = ('/' :: Text.join '/' second).getLast? := by
  rw [Text.join_append '/' nonempty more, List.getLast?_append]
  simp [List.getLast?_cons]

theorem getLast?_join_of_mem_spread {segment : Text} {start : List Text}
    (member : start ∈ spread segment) : (Text.join '/' start).getLast? = segment.getLast? := by
  fun_induction spread segment generalizing start with
  | case1 =>
      rw [List.mem_singleton.mp member]
      rfl
  | case2 =>
      rw [List.mem_singleton.mp member]
      rfl
  | case3 head tail more found one other =>
      rcases List.mem_append.mp member with member | member
      · rw [one member]
        simp [List.getLast?_cons]
      · obtain ⟨deeper, inner, rfl⟩ := List.mem_map.mp member
        have split : (head ++ ['*']) :: globstar :: deeper = [head ++ ['*'], globstar] ++ deeper := rfl
        rw [split, getLast?_join_append (by simp) (ne_nil_of_mem_spread inner), List.getLast?_cons,
          other inner]
        simp [List.getLast?_cons]

theorem mem_spreadAll_cons {segment : Text} {rest chosen : List Text} :
    chosen ∈ spreadAll (segment :: rest) ↔
      ∃ start later, start ∈ spread segment ∧ later ∈ spreadAll rest ∧ chosen = start ++ later := by
  simp only [spreadAll, List.mem_flatMap, List.mem_map]
  constructor
  · intro found
    obtain ⟨start, first, later, member, rfl⟩ := found
    exact ⟨start, later, first, member, rfl⟩
  · intro found
    obtain ⟨start, later, first, member, rfl⟩ := found
    exact ⟨start, first, later, member, rfl⟩

theorem forall_mem_of_mem_spreadAll {property : Text → Prop} {segments chosen : List Text}
    (each : ∀ segment ∈ segments, ∀ start ∈ spread segment, ∀ one ∈ start, property one)
    (member : chosen ∈ spreadAll segments) : ∀ one ∈ chosen, property one := by
  induction segments generalizing chosen with
  | nil =>
      rw [spreadAll, List.mem_singleton] at member
      simp [member]
  | cons segment rest ih =>
      obtain ⟨start, later, first, others, rfl⟩ := mem_spreadAll_cons.mp member
      have following := ih (fun other held => each other (List.mem_cons_of_mem _ held)) others
      intro one held
      rcases List.mem_append.mp held with held | held
      · exact each segment (List.mem_cons_self ..) start first one held
      · exact following one held

/-- What the segments come to is written in their characters, and only stars leave a part out. -/
theorem parts_of_mem_spreadAll {segments chosen : List Text} (member : chosen ∈ spreadAll segments) :
    ∀ one ∈ chosen, (one = globstar ∨ crosses one = false) ∧
      ∃ segment ∈ segments, (∀ character ∈ one, character ∈ segment) ∧ (one = segment ∨ '*' ∈ one) := by
  refine forall_mem_of_mem_spreadAll ?_ member
  intro segment held start first one within
  obtain ⟨apart, inside, same⟩ := parts_of_mem_spread first within
  exact ⟨apart, segment, held, inside, same⟩

theorem mem_expandStars {glob one : Text} :
    one ∈ expandStars glob ↔ ∃ chosen ∈ spreadAll (glob.split '/'), Text.join '/' chosen = one := by
  rw [expandStars, List.mem_eraseDups, List.mem_map]

theorem mem_spreadAll_append {first second chosen : List Text} :
    chosen ∈ spreadAll (first ++ second) ↔
      ∃ start later, start ∈ spreadAll first ∧ later ∈ spreadAll second ∧ chosen = start ++ later := by
  induction first generalizing chosen with
  | nil => simp [spreadAll]
  | cons segment first ih =>
      rw [List.cons_append, mem_spreadAll_cons]
      simp only [ih, mem_spreadAll_cons]
      constructor
      · intro found
        obtain ⟨start, _, one, ⟨middle, later, other, last, rfl⟩, rfl⟩ := found
        exact ⟨start ++ middle, later, ⟨start, middle, one, other, rfl⟩, last, by simp⟩
      · intro found
        obtain ⟨_, later, ⟨start, middle, one, other, rfl⟩, last, rfl⟩ := found
        exact ⟨start, middle ++ later, one, ⟨middle, later, other, last, rfl⟩, by simp⟩

theorem spreadAll_nil_segment : spreadAll [[]] = [[[]]] := by
  simp [spreadAll, spread, splitStars?, globstar]

theorem spreadAll_globstar : spreadAll [globstar] = [[globstar]] := by
  simp [spreadAll, spread]

/-- From stars alone come all the globstars that stand alone. -/
theorem isStarRun_of_mem_spreadAll {segments chosen : List Text} (member : chosen ∈ spreadAll segments)
    (stars : ∀ one ∈ chosen, one = globstar) : ∀ segment ∈ segments, isStarRun segment = true := by
  induction segments generalizing chosen with
  | nil => simp
  | cons segment rest ih =>
      obtain ⟨start, later, first, others, rfl⟩ := mem_spreadAll_cons.mp member
      rw [List.forall_mem_append] at stars
      rw [List.forall_mem_cons]
      exact ⟨isStarRun_of_mem_spread first stars.1, ih others stars.2⟩

theorem exists_globstars_of_stars {segments : List Text}
    (stars : ∀ segment ∈ segments, isStarRun segment = true) :
    ∃ chosen ∈ spreadAll segments, ∀ one ∈ chosen, one = globstar := by
  induction segments with
  | nil => exact ⟨[], by simp [spreadAll], by simp⟩
  | cons segment rest ih =>
      rw [List.forall_mem_cons] at stars
      obtain ⟨chosen, member, same⟩ := ih stars.2
      refine ⟨[globstar] ++ chosen, ?_, by simpa using same⟩
      exact mem_spreadAll_cons.mpr ⟨_, _, globstar_mem_spread stars.1, member, rfl⟩

theorem getLast?_join_of_mem_spreadAll {segments chosen : List Text}
    (member : chosen ∈ spreadAll segments) :
    (Text.join '/' chosen).getLast? = (Text.join '/' segments).getLast? := by
  induction segments generalizing chosen with
  | nil =>
      rw [spreadAll, List.mem_singleton] at member
      rw [member]
  | cons segment rest ih =>
      obtain ⟨start, later, first, others, rfl⟩ := mem_spreadAll_cons.mp member
      by_cases last : rest = []
      · subst last
        rw [spreadAll, List.mem_singleton] at others
        rw [others, List.append_nil, getLast?_join_of_mem_spread first]
        rfl
      · have more := mt (eq_nil_iff_of_mem_spreadAll others).mp last
        have split : segment :: rest = [segment] ++ rest := rfl
        rw [split, getLast?_join_append (ne_nil_of_mem_spread first) more,
          getLast?_join_append (by simp) last, List.getLast?_cons, List.getLast?_cons, ih others]

/-- Taking stars apart leaves no first segment empty. -/
theorem head?_of_mem_spreadAll {segments chosen : List Text} (member : chosen ∈ spreadAll segments)
    (empty : chosen.head? = some []) : segments.head? = some [] := by
  cases segments with
  | nil =>
      rw [spreadAll, List.mem_singleton] at member
      simp [member] at empty
  | cons segment rest =>
      obtain ⟨start, later, first, -, rfl⟩ := mem_spreadAll_cons.mp member
      obtain ⟨piece, others, rfl⟩ := List.exists_cons_of_ne_nil (ne_nil_of_mem_spread first)
      obtain rfl : piece = [] := by simpa using empty
      obtain ⟨-, -, same⟩ := parts_of_mem_spread first (List.mem_cons_self ..)
      simpa [eq_comm] using same

theorem starPairs_of_starless {segment : Text} (starless : '*' ∉ segment) : starPairs segment = 0 := by
  fun_induction starPairs segment with
  | case1 => simp at starless
  | case2 character rest _ ih => exact ih fun member => starless (List.mem_cons_of_mem _ member)
  | case3 => rfl

theorem anchoredLine_of_relative {glob : Text} (relative : glob.head? ≠ some '/') :
    anchoredLine glob = Text.stripRight ('/' :: glob) := by
  have apart : ¬ ['/'].isPrefixOf glob = true := by
    cases glob with
    | nil => simp [List.isPrefixOf]
    | cons character rest =>
        simp only [List.isPrefixOf, Bool.and_true, beq_iff_eq]
        exact fun same => relative (congrArg some same.symm)
  rw [anchoredLine, if_neg apart]

theorem anchoredLine_of_shown {glob : Text} (relative : glob.head? ≠ some '/')
    (shown : glob.stripRight ≠ []) : anchoredLine glob = '/' :: glob.stripRight := by
  rw [anchoredLine_of_relative relative]
  exact @Text.trimRight_append Text.isBlank ['/'] glob shown

theorem head?_join_ne_slash {segments : List Text} (first : segments.head? ≠ some [])
    (clear : ∀ segment ∈ segments, '/' ∉ segment) : (Text.join '/' segments).head? ≠ some '/' := by
  rcases segments with _ | ⟨_ | ⟨character, name⟩, rest⟩
  · simp [Text.join]
  · simp at first
  · have free := clear (character :: name) (List.mem_cons_self ..)
    simp only [List.mem_cons, not_or] at free
    rw [join_cons_eq]
    simpa [eq_comm] using free.1

theorem stripRight_join {before : List Text} {last : Text} (shown : last.stripRight ≠ []) :
    Text.stripRight (Text.join '/' (before ++ [last])) =
      Text.join '/' (before ++ [last.stripRight]) := by
  by_cases none : before = []
  · subst none
    rfl
  · have shape : ∀ piece : Text, Text.join '/' (before ++ [piece]) =
        (Text.join '/' before ++ ['/']) ++ piece := by
      intro piece
      rw [Text.join_append '/' none (by simp)]
      simp [Text.join]
    rw [shape, shape]
    exact Text.trimRight_append shown

theorem split_slash_join {pieces : List Text} (nonempty : pieces ≠ [])
    (clear : ∀ piece ∈ pieces, '/' ∉ piece) :
    Text.split '/' ('/' :: Text.join '/' pieces) = [] :: pieces := by
  rw [Text.split, if_pos rfl, Text.split_join nonempty clear]

/-- A line of segments is read back as these segments; blanks at its end leave the last one. -/
theorem lineSegments_of_shown {before : List Text} {last : Text}
    (first : (before ++ [last]).head? ≠ some [])
    (clear : ∀ segment ∈ before ++ [last], '/' ∉ segment) (shown : last.stripRight ≠ []) :
    lineSegments (anchoredLine (Text.join '/' (before ++ [last]))) =
      (before ++ [last.stripRight], false) := by
  have stripped := @stripRight_join before last shown
  have some : Text.stripRight (Text.join '/' (before ++ [last])) ≠ [] := by
    rw [stripped]
    intro empty
    rcases List.eq_nil_or_concat before with rfl | ⟨_, _, rfl⟩
    · exact shown empty
    · rw [Text.join_append '/' (by simp) (by simp)] at empty
      simp at empty
  have free : ∀ piece ∈ before ++ [last.stripRight], '/' ∉ piece := by
    intro piece held
    rcases List.mem_append.mp held with held | held
    · exact clear piece (List.mem_append_left _ held)
    · rw [List.mem_singleton.mp held]
      intro inside
      exact clear last (by simp) (Text.trimRight_prefix.subset inside)
  rw [anchoredLine_of_shown (head?_join_ne_slash first clear) some, stripped]
  simp only [lineSegments, split_slash_join (by simp) free, List.drop_succ_cons, List.drop_zero,
    List.getLast?_concat, Option.some.injEq, if_neg shown]

/-- A line that does not end in a blank is read back as its segments. -/
theorem lineSegments_join {segments : List Text}
    (proper : ∀ segment ∈ segments, segment ≠ [] ∧ '/' ∉ segment) (nonempty : segments ≠ [])
    (kept : ∀ last, (Text.join '/' segments).getLast? = some last → Text.isBlank last = false) :
    lineSegments (anchoredLine (Text.join '/' segments)) = (segments, false) := by
  obtain ⟨before, last, rfl⟩ := (List.eq_nil_or_concat segments).resolve_left nonempty
  rw [List.concat_eq_append] at proper kept ⊢
  have final := proper last (by simp)
  have same : last.stripRight = last := by
    apply Text.stripRight_eq_self
    intro character found
    apply kept
    by_cases none : before = []
    · subst none
      exact found
    · rw [getLast?_join_append none (by simp), List.getLast?_cons]
      simp [Text.join, found]
  have first : (before ++ [last]).head? ≠ some [] := by
    intro empty
    exact (proper [] (List.mem_of_head? empty)).1 rfl
  have line := lineSegments_of_shown first (fun segment held => (proper segment held).2)
    (by rw [same]; exact final.1)
  rw [same] at line
  exact line

section Lines

variable {segments : List Text} (nonempty : segments ≠ [])

include nonempty

/-- A slash at the end of a line is read as a globstar. -/
theorem lineSegments_of_ended (first : segments.head? ≠ some [])
    (clear : ∀ segment ∈ segments, '/' ∉ segment) :
    lineSegments (anchoredLine (Text.join '/' (segments ++ [[]]))) =
      (segments ++ [globstar], true) := by
  have kept : ∀ last, (Text.join '/' (segments ++ [[]])).getLast? = some last →
      Text.isBlank last = false := by
    intro last found
    rw [getLast?_join_append nonempty (by simp)] at found
    cases found
    decide
  have whole := Text.stripRight_eq_self kept
  have start : (segments ++ [[]]).head? ≠ some [] := by
    obtain ⟨segment, rest, rfl⟩ := List.exists_cons_of_ne_nil nonempty
    exact first
  have inner : ∀ piece ∈ segments ++ [[]], '/' ∉ piece := by
    intro piece held
    rcases List.mem_append.mp held with held | held
    · exact clear piece held
    · rw [List.mem_singleton.mp held]
      simp
  have more : Text.join '/' (segments ++ [[]]) ≠ [] := by
    rw [Text.join_append '/' nonempty (by simp)]
    simp
  have line := anchoredLine_of_shown (head?_join_ne_slash start inner) (by rwa [whole])
  rw [whole] at line
  have split := split_slash_join (by simp) inner
  simp only [lineSegments, line, split, List.drop_succ_cons, List.drop_zero]
  simp [more]

theorem lineSegments_join_slash (simple : ∀ segment ∈ segments, IsSimple segment) :
    lineSegments (anchoredLine (Text.join '/' (segments ++ [[]]))) =
      (segments ++ [globstar], true) := by
  apply lineSegments_of_ended nonempty
  · intro empty
    exact (simple [] (List.mem_of_head? empty)).some rfl
  · exact fun segment held => (simple segment held).clear

end Lines

end PathSearch.Glob
