import PathSearch.Proofs.Glob.Compiled
import PathSearch.Proofs.Glob.Prefix

/-! Cutting the literal segments off a pattern: what is left accepts what the pattern accepts behind them. -/

namespace PathSearch.Glob

/-- A slash or none, and the segments with a slash behind each. -/
def frontText (slash : Bool) (start : List Text) : Text :=
  leadText slash ++ start.flatMap (· ++ ['/'])

theorem flatMap_append_join (start : List Text) {pieces : List Text} (nonempty : pieces ≠ []) :
    start.flatMap (· ++ ['/']) ++ Text.join '/' pieces = Text.join '/' (start ++ pieces) := by
  induction start with
  | nil => rfl
  | cons segment start ih =>
      rw [List.flatMap_cons, List.append_assoc, ih, List.cons_append,
        Text.join_cons '/' segment (by simp [nonempty])]
      simp

theorem frontText_append (slash : Bool) (start : List Text) (inner : Text) :
    frontText slash start ++ inner = leadText slash ++ Text.join '/' (start ++ inner.split '/') := by
  have whole := flatMap_append_join start (Text.split_ne_nil '/' inner)
  rw [Text.join_split] at whole
  rw [frontText, List.append_assoc, whole]

/-- Not all characters of the segment are blank. -/
def IsShown (segment : Text) : Prop := ∃ character ∈ segment, Text.isBlank character = false

theorem any_iff_isShown {segment : Text} :
    (segment.any fun character => !Text.isBlank character) = true ↔ IsShown segment := by
  simp [IsShown]

instance (segment : Text) : Decidable (IsShown segment) :=
  decidable_of_decidable_of_iff any_iff_isShown

theorem IsShown.stripRight_ne_nil {segment : Text} (shown : IsShown segment) :
    segment.stripRight ≠ [] := by
  obtain ⟨character, member, kept⟩ := shown
  exact Text.trimRight_ne_nil member kept

theorem IsShown.ne_nil {segment : Text} (shown : IsShown segment) : segment ≠ [] := by
  obtain ⟨character, member, -⟩ := shown
  exact List.ne_nil_of_mem member

theorem IsLiteral.segmentExpansions_eq_zero {segment : Text} (literal : IsLiteral segment) :
    segmentExpansions segment = 0 := by
  rw [segmentExpansions, starPairs_of_starless literal.starless]
  simp

/-- The expansions of a text end in the same segments with literal segments in front as without, and are
directories alike; no directory is one that globstars alone describe, unless there is nothing in front. -/
def CutsAlike (slash : Bool) (start : List Text) (inner : Text) : Prop :=
  ∀ chosen ∈ spreadAll (inner.split '/'), ∃ rest isDirectory, rest ≠ [] ∧
    (∀ segment ∈ rest, IsApart segment) ∧
    (start ≠ [] → isDirectory = true → mergeGlobstars rest ≠ [globstar]) ∧
    lineSegments (anchoredLine (leadText slash ++ Text.join '/' (start ++ chosen))) =
      (start ++ rest, isDirectory) ∧
    lineSegments (anchoredLine (Text.join '/' chosen)) = (rest, isDirectory)

section Alternative

variable {slash : Bool} {start : List Text} {inner : Text}
  (literal : ∀ segment ∈ start, IsLiteral segment)

include literal

theorem split_frontText :
    Text.split '/' (frontText slash start ++ inner) =
      (if slash then [[]] else []) ++ (start ++ inner.split '/') := by
  have clear : ∀ segment ∈ start ++ inner.split '/', '/' ∉ segment := by
    intro segment held
    rcases List.mem_append.mp held with held | held
    · exact (literal segment held).clear
    · exact Text.separator_notMem_of_mem_split held
  have some : start ++ inner.split '/' ≠ [] := by simp [Text.split_ne_nil]
  rw [frontText_append]
  cases slash with
  | false =>
      rw [leadText_false, List.nil_append, Text.split_join some clear]
      rfl
  | true => exact split_slash_join some clear

theorem mem_expandStars_frontText {one : Text} :
    one ∈ expandStars (frontText slash start ++ inner) ↔
      ∃ chosen ∈ spreadAll (inner.split '/'), one = leadText slash ++ Text.join '/' (start ++ chosen) := by
  have inside : ∀ {chosen : List Text}, chosen ∈ spreadAll (start ++ inner.split '/') ↔
      ∃ later ∈ spreadAll (inner.split '/'), chosen = start ++ later := by
    intro chosen
    rw [mem_spreadAll_append]
    simp [mem_spreadAll_literals literal]
  rw [mem_expandStars, split_frontText literal]
  cases slash with
  | false =>
      simp only [Bool.false_eq_true, if_false, List.nil_append, inside, leadText_false]
      constructor
      · intro found
        obtain ⟨_, ⟨later, member, rfl⟩, rfl⟩ := found
        exact ⟨later, member, rfl⟩
      · intro found
        obtain ⟨later, member, rfl⟩ := found
        exact ⟨_, ⟨later, member, rfl⟩, rfl⟩
  | true =>
      have line : ∀ {later : List Text}, later ∈ spreadAll (inner.split '/') →
          Text.join '/' ([[]] ++ (start ++ later)) = leadText true ++ Text.join '/' (start ++ later) := by
        intro later member
        have more := mt (eq_nil_iff_of_mem_spreadAll member).mp (Text.split_ne_nil '/' inner)
        exact Text.join_cons '/' [] (by simp [more])
      simp only [if_true, mem_spreadAll_append, spreadAll_nil_segment, List.mem_singleton]
      constructor
      · intro found
        obtain ⟨_, ⟨_, _, rfl, held, rfl⟩, rfl⟩ := found
        rw [← mem_spreadAll_append] at held
        obtain ⟨later, member, rfl⟩ := inside.mp held
        exact ⟨later, member, line member⟩
      · intro found
        obtain ⟨later, member, rfl⟩ := found
        have held := inside.mpr ⟨later, member, rfl⟩
        rw [mem_spreadAll_append] at held
        exact ⟨_, ⟨_, _, rfl, held, rfl⟩, line member⟩

theorem starExpansions_frontText :
    starExpansions (frontText slash start ++ inner) = starExpansions inner := by
  have passes : ∀ total, start.foldr (fun segment total => segmentExpansions segment + total) total =
      total := by
    intro total
    induction start with
    | nil => rfl
    | cons segment start ih =>
        have first := literal segment (List.mem_cons_self ..)
        rw [List.foldr_cons, ih fun other held => literal other (List.mem_cons_of_mem _ held),
          first.segmentExpansions_eq_zero, Nat.zero_add]
  rw [starExpansions, starExpansions, split_frontText literal, List.foldr_append, List.foldr_append,
    passes]
  cases slash with
  | false => rfl
  | true => exact Nat.zero_add _

omit literal in
/-- A text that does not start with a slash can be given one. -/
theorem anchoredLine_leadText {glob : Text} (relative : glob.head? ≠ some '/') :
    anchoredLine (leadText slash ++ glob) = anchoredLine glob := by
  cases slash with
  | false => rfl
  | true =>
      rw [anchoredLine_of_relative relative]
      rfl

section Shown

variable (shown : ∀ segment ∈ inner.split '/', IsShown segment)

include shown

omit literal in
theorem proper_of_mem_spreadAll {chosen : List Text} (member : chosen ∈ spreadAll (inner.split '/')) :
    ∀ one ∈ chosen, ('/' ∉ one ∧ IsShown one) ∧ (one = globstar ∨ crosses one = false) := by
  intro one within
  obtain ⟨apart, segment, held, inside, same⟩ := parts_of_mem_spreadAll member one within
  have clear := Text.separator_notMem_of_mem_split held
  refine ⟨⟨fun slash => clear (inside _ slash), ?_⟩, apart⟩
  rcases same with rfl | star
  · exact shown one held
  · exact ⟨'*', star, rfl⟩

/-- Where every segment shows, the lines name no directories. -/
theorem cutsAlike_of_shown : CutsAlike slash start inner := by
  intro chosen member
  have proper := proper_of_mem_spreadAll shown member
  have more := mt (eq_nil_iff_of_mem_spreadAll member).mp (Text.split_ne_nil '/' inner)
  obtain ⟨before, last, rfl⟩ := (List.eq_nil_or_concat chosen).resolve_left more
  rw [List.concat_eq_append] at proper ⊢
  have final := proper last (by simp)
  have kept := final.1.2.stripRight_ne_nil
  have clear : ∀ segment ∈ start ++ (before ++ [last]), '/' ∉ segment := by
    intro segment held
    rcases List.mem_append.mp held with held | held
    · exact (literal segment held).clear
    · exact (proper segment held).1.1
  have named : ∀ segment ∈ start ++ (before ++ [last]), segment ≠ [] := by
    intro segment held
    rcases List.mem_append.mp held with held | held
    · exact (literal segment held).some
    · exact (proper segment held).1.2.ne_nil
  refine ⟨before ++ [last.stripRight], false, by simp, ?_, by simp, ?_, ?_⟩
  · intro segment held
    rcases List.mem_append.mp held with held | held
    · have part := proper segment (List.mem_append_left _ held)
      exact ⟨part.1.2.ne_nil, part.2⟩
    · rw [List.mem_singleton.mp held]
      refine ⟨kept, ?_⟩
      rcases final.2 with rfl | single
      · exact .inl rfl
      · refine .inr ?_
        rw [← Bool.not_eq_true, crosses, occursIn_iff_infix] at single ⊢
        exact fun two => single (two.trans Text.trimRight_prefix.isInfix)
  · have first : (start ++ (before ++ [last])).head? ≠ some [] :=
      fun empty => named [] (List.mem_of_head? empty) rfl
    rw [anchoredLine_leadText (head?_join_ne_slash first clear)]
    rw [← List.append_assoc] at first clear ⊢
    rw [lineSegments_of_shown first clear kept, List.append_assoc]
  · refine lineSegments_of_shown ?_ (fun segment held => (proper segment held).1.1) kept
    exact fun empty => named [] (List.mem_append_right _ (List.mem_of_head? empty)) rfl

end Shown

section Ended

variable {body : Text} (some : ∀ segment ∈ body.split '/', segment ≠ [])

include some

omit literal in
theorem isApart_of_mem_spreadAll {chosen : List Text} (member : chosen ∈ spreadAll (body.split '/')) :
    ∀ one ∈ chosen, '/' ∉ one ∧ IsApart one := by
  intro one within
  obtain ⟨apart, segment, held, inside, same⟩ := parts_of_mem_spreadAll member one within
  have clear := Text.separator_notMem_of_mem_split held
  refine ⟨fun slash => clear (inside _ slash), ?_, apart⟩
  rcases same with rfl | star
  · exact some one held
  · exact List.ne_nil_of_mem star

omit literal some in
/-- Segments with a slash behind them are read as a directory, with a slash in front or without. -/
theorem lineSegments_leadText_ended {segments : List Text} (nonempty : segments ≠ [])
    (proper : ∀ segment ∈ segments, '/' ∉ segment ∧ segment ≠ []) :
    lineSegments (anchoredLine (leadText slash ++ Text.join '/' (segments ++ [[]]))) =
      (segments ++ [globstar], true) := by
  have first : segments.head? ≠ Option.some [] := fun empty =>
    (proper [] (List.mem_of_head? empty)).2 rfl
  have relative : (Text.join '/' (segments ++ [[]])).head? ≠ Option.some '/' := by
    apply head?_join_ne_slash
    · obtain ⟨segment, rest, rfl⟩ := List.exists_cons_of_ne_nil nonempty
      exact first
    · intro segment held
      rcases List.mem_append.mp held with held | held
      · exact (proper segment held).1
      · rw [List.mem_singleton.mp held]
        simp
  rw [anchoredLine_leadText relative]
  exact lineSegments_of_ended nonempty first fun segment held => (proper segment held).1

omit literal some in
theorem mem_spreadAll_ended {chosen : List Text} :
    chosen ∈ spreadAll (Text.split '/' (body ++ ['/'])) ↔
      ∃ later ∈ spreadAll (body.split '/'), chosen = later ++ [[]] := by
  have last : spreadAll (Text.split '/' []) = [[[]]] := spreadAll_nil_segment
  rw [Text.split_append, mem_spreadAll_append, last]
  constructor
  · intro found
    obtain ⟨later, _, member, ended, rfl⟩ := found
    exact ⟨later, member, by rw [List.mem_singleton.mp ended]⟩
  · intro found
    obtain ⟨later, member, rfl⟩ := found
    exact ⟨later, [[]], member, List.mem_singleton.mpr rfl, rfl⟩

/-- What a text that ends in a slash comes to is read as a directory, with literal segments in front or
without. -/
theorem lineSegments_of_mem_spreadAll {later : List Text} (member : later ∈ spreadAll (body.split '/')) :
    lineSegments (anchoredLine (leadText slash ++ Text.join '/' (start ++ (later ++ [[]])))) =
      (start ++ (later ++ [globstar]), true) := by
  have parts := isApart_of_mem_spreadAll some member
  have more := mt (eq_nil_iff_of_mem_spreadAll member).mp (Text.split_ne_nil '/' body)
  rw [← List.append_assoc, ← List.append_assoc]
  refine lineSegments_leadText_ended (by simp [more]) ?_
  intro segment held
  rcases List.mem_append.mp held with held | held
  · exact ⟨(literal segment held).clear, (literal segment held).some⟩
  · exact ⟨(parts segment held).1, (parts segment held).2.some⟩

omit literal in
theorem lineSegments_alone_of_mem_spreadAll {later : List Text}
    (member : later ∈ spreadAll (body.split '/')) :
    lineSegments (anchoredLine (Text.join '/' (later ++ [[]]))) = (later ++ [globstar], true) :=
  @lineSegments_of_mem_spreadAll false [] (by simp) body some later member

/-- Where a text ends in a slash, the lines name directories. -/
theorem cutsAlike_of_ended
    (named : start ≠ [] → ∃ segment ∈ body.split '/', isStarRun segment = false) :
    CutsAlike slash start (body ++ ['/']) := by
  intro chosen found
  obtain ⟨later, member, rfl⟩ := mem_spreadAll_ended.mp found
  have parts := isApart_of_mem_spreadAll some member
  refine ⟨later ++ [globstar], true, by simp, ?_, ?_,
    lineSegments_of_mem_spreadAll literal some member, lineSegments_alone_of_mem_spreadAll some member⟩
  · intro segment held
    rcases List.mem_append.mp held with held | held
    · exact (parts segment held).2
    · rw [List.mem_singleton.mp held]
      exact ⟨by decide, .inl rfl⟩
  · intro front _ alone
    obtain ⟨segment, held, other⟩ := named front
    have stars := eq_globstar_of_mergeGlobstars alone
    have run := isStarRun_of_mem_spreadAll member
      (fun one within => stars one (List.mem_append_left _ within)) segment held
    rw [run] at other
    cases other

end Ended

variable (alike : CutsAlike slash start inner)

include alike

theorem exists_forms_frontText
    (made : ∀ one ∈ expandStars (frontText slash start ++ inner), ∃ form, formOf? one = some form) :
    ∀ one ∈ expandStars inner, ∃ form, formOf? one = some form := by
  intro one expanded
  obtain ⟨chosen, member, rfl⟩ := mem_expandStars.mp expanded
  obtain ⟨rest, _, -, -, -, whole, part⟩ := alike chosen member
  exact exists_formOf?_of_prefixed whole part
    (made _ ((mem_expandStars_frontText literal).mpr ⟨chosen, member, rfl⟩))

/-- The expansions of the whole accept the names of the literal segments and behind them what the
expansions of the rest accept. -/
theorem fits_expandStars_frontText {names : List Text} (plain : ∀ name ∈ names, IsPlainName name) :
    (∃ one ∈ expandStars (frontText slash start ++ inner), Fits (formOf? one) (Text.join '/' names)) ↔
      ∃ later, names = start ++ later ∧
        ∃ one ∈ expandStars inner, Fits (formOf? one) (Text.join '/' later) := by
  constructor
  · intro found
    obtain ⟨one, expanded, fits⟩ := found
    obtain ⟨chosen, member, rfl⟩ := (mem_expandStars_frontText literal).mp expanded
    obtain ⟨rest, _, nonempty, apart, named, whole, part⟩ := alike chosen member
    obtain ⟨later, same, fits⟩ :=
      (fits_formOf?_prefixed whole part literal nonempty apart named plain).mp fits
    exact ⟨later, same, _, mem_expandStars.mpr ⟨chosen, member, rfl⟩, fits⟩
  · intro found
    obtain ⟨later, same, one, expanded, fits⟩ := found
    obtain ⟨chosen, member, rfl⟩ := mem_expandStars.mp expanded
    obtain ⟨rest, _, nonempty, apart, named, whole, part⟩ := alike chosen member
    have whole :=
      (fits_formOf?_prefixed whole part literal nonempty apart named plain).mpr ⟨later, same, fits⟩
    exact ⟨_, (mem_expandStars_frontText literal).mpr ⟨chosen, member, rfl⟩, whole⟩

end Alternative

theorem notMem_frontText {slash : Bool} {start : List Text} {character : Char} (other : character ≠ '/')
    (absent : ∀ segment ∈ start, character ∉ segment) : character ∉ frontText slash start := by
  have front : character ∉ leadText slash := by
    cases slash with
    | false => simp [leadText]
    | true => simpa [leadText] using other
  simp only [frontText, List.mem_append, List.mem_flatMap, List.mem_singleton, not_or, not_exists,
    not_and]
  exact ⟨front, fun segment member => ⟨absent segment member, other⟩⟩

section Pattern

variable {pattern residual : Text} {slash : Bool} {start : List Text} {matcher : Matcher}
  (shape : trimmed pattern = frontText slash start ++ residual)
  (trims : trimmed residual = residual)
  (literal : ∀ segment ∈ start, IsLiteral segment)
  (compiled : compile pattern = .ok matcher)

include shape literal compiled

theorem exists_alternatives_residual :
    ∃ globs inners, alternatives (trimmed pattern) = .ok globs ∧ alternatives residual = .ok inners ∧
      (∀ glob, glob ∈ globs ↔ ∃ inner ∈ inners, glob = frontText slash start ++ inner) ∧
        groupExpansions residual ≤ expansionLimit := by
  obtain ⟨-, few, globs, forms, split, -, -⟩ := compile_eq_ok.mp compiled
  have opened : '\x7b' ∉ frontText slash start :=
    notMem_frontText (by decide) fun segment held => (literal segment held).opened
  have closed : '\x7d' ∉ frontText slash start :=
    notMem_frontText (by decide) fun segment held => (literal segment held).closed
  rw [shape] at few split ⊢
  rw [groupExpansions_append opened closed split] at few
  obtain ⟨inners, inner, same⟩ := alternatives_append opened closed split
  exact ⟨globs, inners, split, inner, same, few⟩

include trims

variable (alike : ∀ inners, alternatives residual = .ok inners →
    ∀ inner ∈ inners, CutsAlike slash start inner)

include alike

/-- The rest of a pattern compiles when the pattern does. -/
theorem exists_compile_residual (nonempty : residual ≠ []) : ∃ rest, compile residual = .ok rest := by
  obtain ⟨globs, inners, split, inner, same, few⟩ :=
    exists_alternatives_residual shape literal compiled
  obtain ⟨-, -, _, forms, found, mapped, -⟩ := compile_eq_ok.mp compiled
  obtain rfl := Except.ok.inj (split.symm.trans found)
  have plain : '[' ∉ frontText slash start :=
    notMem_frontText (by decide) fun segment held => (literal segment held).plain
  have each : ∀ glob ∈ inners, ∃ forms, formsOf residual glob = .ok forms := by
    intro glob member
    have chosen := (same _).mpr ⟨glob, member, rfl⟩
    obtain ⟨checked, less, made⟩ :=
      exists_formsOf_iff.mp (exists_mapM_iff.mp ⟨forms, mapped⟩ _ chosen)
    rw [checkClasses_append plain] at checked
    rw [starExpansions_frontText literal] at less
    exact exists_formsOf_iff.mpr
      ⟨checked, less, exists_forms_frontText literal (alike inners inner glob member) made⟩
  obtain ⟨groups, collected⟩ := exists_mapM_iff.mpr each
  refine ⟨_, compile_eq_ok.mpr ⟨by rwa [trims], by rwa [trims], inners, groups, ?_, collected, rfl⟩⟩
  rw [trims, inner]

/-- What the pattern accepts are the names of the literal segments with what the rest accepts. -/
theorem acceptsText_iff_of_residual {rest : Matcher} (cut : compile residual = .ok rest)
    {names : List Text} (ordinary : ∀ name ∈ names, IsOrdinary name) {text : Text}
    (read : subject text = Text.join '/' names) :
    matcher.acceptsText text = true ↔
      ∃ later, names = start ++ later ∧ rest.acceptsText (Text.join '/' later) = true := by
  obtain ⟨globs, inners, split, inner, same, -⟩ :=
    exists_alternatives_residual shape literal compiled
  have plain := fun name member => (ordinary name member).isPlainName
  have found : alternatives (trimmed residual) = .ok inners := by rw [trims, inner]
  rw [acceptsText_iff_of_compile compiled split, read]
  constructor
  · intro fits
    obtain ⟨glob, chosen, fits⟩ := fits
    obtain ⟨part, member, rfl⟩ := (same glob).mp chosen
    obtain ⟨later, rfl, behind⟩ :=
      (fits_expandStars_frontText literal (alike inners inner part member) plain).mp fits
    have held := fun name member => ordinary name (List.mem_append_right start member)
    refine ⟨later, rfl, (acceptsText_iff_of_compile cut found).mpr ⟨part, member, ?_⟩⟩
    rw [subject_join held]
    exact behind
  · intro accepted
    obtain ⟨later, rfl, accepted⟩ := accepted
    have held := fun name member => ordinary name (List.mem_append_right start member)
    obtain ⟨part, member, fits⟩ := (acceptsText_iff_of_compile cut found).mp accepted
    rw [subject_join held] at fits
    refine ⟨frontText slash start ++ part, (same _).mpr ⟨part, member, rfl⟩, ?_⟩
    exact (fits_expandStars_frontText literal (alike inners inner part member) plain).mpr
      ⟨later, rfl, fits⟩

end Pattern

end PathSearch.Glob
