import PathSearch.Proofs.Glob.Plain

/-!
Stars by rewriting. The first segment with two stars among other characters is rewritten in two ways, and what
comes out is looked through again from its start. Each rewriting leaves fewer surplus stars, so this ends, and it
ends in globs in which two stars in a row are a segment of their own.
-/

namespace PathSearch.Glob

/-- The first of some segments that is to be rewritten: the segments in front of it, what stands before and
after its first two stars, and the segments behind it. -/
def firstStars? : List Text → Option (List Text × Text × Text × List Text)
  | [] => none
  | segment :: rest =>
      match if segment = globstar then none else splitStars? segment with
      | some (head, tail) => some ([], head, tail, rest)
      | none => (firstStars? rest).map fun (front, found) => (segment :: front, found)

/-- What a glob is rewritten into: with one star for the first two, and with directories between two single
stars. Nothing when no segment is to be rewritten. -/
def rewritings (glob : Text) : List Text :=
  match firstStars? (glob.split '/') with
  | none => []
  | some (front, head, tail, behind) =>
      [['*'], ['*', '/', '*', '*', '/', '*']].map fun stars =>
        Text.join '/' (front ++ (head ++ stars ++ tail) :: behind)

/-- The globs that rewriting ends in, with at most so many rewritings in the result of each other. -/
def rewriteStars (levels : Nat) (glob : Text) : Except Error (List Text) :=
  if rewritings glob = [] then .ok [glob]
  else
    match levels with
    | 0 => .error .tooManyExpansions
    | fewer + 1 => do
        let expanded ← (rewritings glob).mapM (rewriteStars fewer)
        return expanded.flatten.eraseDups

/-- Two stars in a row stand nowhere in the segment, unless they are all of it. -/
def IsSettledSegment (segment : Text) : Prop := segment = globstar ∨ ¬ globstar <:+: segment

/-- Every segment of the glob is settled. -/
def IsSettled (glob : Text) : Prop := ∀ segment ∈ glob.split '/', IsSettledSegment segment

section Segment

variable {segment head tail : Text}

theorem isSettledSegment_iff : IsSettledSegment segment ↔ segment = globstar ∨ crosses segment = false := by
  rw [IsSettledSegment, ← occursIn_iff_infix, Bool.not_eq_true]
  rfl

theorem spread_of_settled (settled : IsSettledSegment segment) : spread segment = [[segment]] := by
  rcases isSettledSegment_iff.mp settled with rfl | single
  · simp [spread]
  · exact spread_eq_of_single single

theorem spread_of_first (more : segment ≠ globstar) (found : splitStars? segment = some (head, tail)) :
    spread segment =
      spread (head ++ '*' :: tail) ++
        (spread ('*' :: tail)).map fun deeper => (head ++ ['*']) :: globstar :: deeper := by
  rw [spread, if_neg more]
  split
  · rename_i none
    rw [found] at none
    cases none
  · rename_i others same
    rw [found] at same
    cases same
    rfl

theorem spreadAll_append_of_settled {front : List Text} (settled : ∀ one ∈ front, IsSettledSegment one)
    (rest : List Text) : spreadAll (front ++ rest) = (spreadAll rest).map fun later => front ++ later := by
  induction front with
  | nil => simp
  | cons segment front ih =>
      rw [List.forall_mem_cons] at settled
      rw [List.cons_append, spreadAll, spread_of_settled settled.1, ih settled.2]
      simp

theorem spreadAll_of_settled {segments : List Text} (settled : ∀ one ∈ segments, IsSettledSegment one) :
    spreadAll segments = [segments] := by
  have whole := spreadAll_append_of_settled settled []
  rwa [List.append_nil, spreadAll, List.map_singleton, List.append_nil] at whole

theorem spread_ne_nil (segment : Text) : spread segment ≠ [] := by
  fun_induction spread segment with
  | case1 => simp
  | case2 => simp
  | case3 head _ _ _ fewer _ => simp [fewer]

theorem spreadAll_ne_nil (segments : List Text) : spreadAll segments ≠ [] := by
  induction segments with
  | nil => simp [spreadAll]
  | cons segment rest ih =>
      obtain ⟨start, others, shape⟩ := List.exists_cons_of_ne_nil (spread_ne_nil segment)
      simp [spreadAll, shape, ih]

theorem splitStars?_eq_none_iff : splitStars? segment = none ↔ crosses segment = false := by
  refine ⟨crosses_of_splitStars?_eq_none, fun single => ?_⟩
  cases found : splitStars? segment with
  | none => rfl
  | some ends =>
      have two := crosses_iff.mpr ⟨_, _, eq_of_splitStars? found⟩
      simp [single] at two

/-- Whether a segment is to be rewritten. -/
theorem toSplit_eq_none_iff :
    (if segment = globstar then none else splitStars? segment) = none ↔ IsSettledSegment segment := by
  rw [isSettledSegment_iff, ← splitStars?_eq_none_iff]
  by_cases stars : segment = globstar
  · simp [stars]
  · simp [stars]

end Segment

section Count

variable {segment head tail : Text}

theorem starPairs_of_single (single : crosses segment = false) : starPairs segment = 0 := by
  fun_induction starPairs segment with
  | case1 rest =>
      have two := crosses_iff.mpr ⟨[], rest, rfl⟩
      cases single.symm.trans two
  | case2 character rest _ ih =>
      simp only [crosses, Text.occursIn, Bool.or_eq_false_iff] at single
      exact ih single.2
  | case3 => rfl

theorem segmentExpansions_of_settled (settled : IsSettledSegment segment) :
    segmentExpansions segment = 0 := by
  rcases isSettledSegment_iff.mp settled with rfl | single
  · rfl
  · rw [segmentExpansions, starPairs_of_single single, ite_self]

/-- What stands before the first two stars has none that count. -/
theorem starPairs_append_of_first (found : splitStars? segment = some (head, tail)) (rest : Text) :
    starPairs (head ++ '*' :: rest) = starPairs ('*' :: rest) := by
  fun_induction splitStars? segment generalizing head tail with
  | case1 rest =>
      cases found
      rfl
  | case2 character text first ih =>
      obtain ⟨⟨inner, after⟩, held, same⟩ := Option.map_eq_some_iff.mp found
      cases same
      have shape := eq_of_splitStars? held
      rw [List.cons_append, starPairs, ih held]
      intro following star same
      cases inner with
      | nil => exact first _ star shape
      | cons next inner =>
          obtain ⟨rfl, -⟩ := List.cons.inj same
          exact first _ star shape
  | case3 => cases found

/-- A segment that is to be rewritten has one star more to be left out than what it becomes with one star in
place of two, and as many more at least as what begins with the second of them. -/
theorem segmentExpansions_of_first (more : segment ≠ globstar)
    (found : splitStars? segment = some (head, tail)) :
    segmentExpansions segment = segmentExpansions (head ++ '*' :: tail) + 1 ∧
      segmentExpansions ('*' :: tail) ≤ segmentExpansions (head ++ '*' :: tail) := by
  obtain rfl := eq_of_splitStars? found
  have whole := starPairs_append_of_first found ('*' :: tail)
  have fewer := starPairs_append_of_first found tail
  rw [starPairs] at whole
  have stars : (head ++ '*' :: '*' :: tail).all (· = '*') = (head ++ '*' :: tail).all (· = '*') := by
    simp
  rw [segmentExpansions, segmentExpansions, segmentExpansions, stars, whole, fewer]
  by_cases all : (head ++ '*' :: tail).all (· = '*') = true
  · -- Stars alone: the first two stand at the start, and behind them there is another one.
    have heads : head = [] := by
      rcases List.eq_nil_or_concat head with none | ⟨front, last, rfl⟩
      · exact none
      · have star : last = '*' := by simpa using List.all_eq_true.mp all last (by simp)
        exact absurd (by rw [star, List.concat_eq_append]) ((head_of_splitStars? found).1 front)
    subst heads
    rw [List.nil_append] at all more
    cases tail with
    | nil => exact absurd rfl more
    | cons next tail =>
        obtain rfl : next = '*' := by simpa using List.all_eq_true.mp all next (by simp)
        rw [List.nil_append, if_pos all, if_pos all, starPairs]
        omega
  · rw [if_neg all, if_neg all]
    split <;> omega

/-- The surplus stars of segments, one after the other. -/
def expansionsOf (segments : List Text) : Nat :=
  segments.foldr (fun segment total => segmentExpansions segment + total) 0

theorem starExpansions_eq (glob : Text) : starExpansions glob = expansionsOf (glob.split '/') := rfl

theorem expansionsOf_cons (segment : Text) (rest : List Text) :
    expansionsOf (segment :: rest) = segmentExpansions segment + expansionsOf rest := rfl

theorem expansionsOf_append (first second : List Text) :
    expansionsOf (first ++ second) = expansionsOf first + expansionsOf second := by
  induction first with
  | nil => exact (Nat.zero_add _).symm
  | cons segment rest ih => rw [List.cons_append, expansionsOf_cons, expansionsOf_cons, ih, Nat.add_assoc]

theorem expansionsOf_of_settled {segments : List Text} (settled : ∀ one ∈ segments, IsSettledSegment one) :
    expansionsOf segments = 0 := by
  induction segments with
  | nil => rfl
  | cons segment rest ih =>
      rw [List.forall_mem_cons] at settled
      rw [expansionsOf_cons, segmentExpansions_of_settled settled.1, ih settled.2]

end Count

section First

variable {segments : List Text}

/-- The segment that `firstStars?` finds, between settled ones in front and any behind. -/
structure IsFirst (segments front : List Text) (segment head tail : Text) (behind : List Text) : Prop where
  segments_eq : segments = front ++ segment :: behind
  settled : ∀ one ∈ front, IsSettledSegment one
  more : segment ≠ globstar
  found : splitStars? segment = some (head, tail)

theorem firstStars?_eq_none_iff :
    firstStars? segments = none ↔ ∀ segment ∈ segments, IsSettledSegment segment := by
  induction segments with
  | nil => simp [firstStars?]
  | cons segment rest ih =>
      rw [List.forall_mem_cons, ← ih, ← toSplit_eq_none_iff]
      cases found : if segment = globstar then none else splitStars? segment with
      | none => simp [firstStars?, found]
      | some ends => simp [firstStars?, found]

theorem isFirst_of_firstStars? {front behind : List Text} {head tail : Text}
    (first : firstStars? segments = some (front, head, tail, behind)) :
    ∃ segment, IsFirst segments front segment head tail behind := by
  induction segments generalizing front with
  | nil => cases first
  | cons segment rest ih =>
      rw [firstStars?] at first
      cases found : if segment = globstar then none else splitStars? segment with
      | none =>
          rw [found] at first
          obtain ⟨⟨others, ends⟩, later, same⟩ := Option.map_eq_some_iff.mp first
          cases same
          obtain ⟨inner, isFirst⟩ := ih later
          refine ⟨inner, by rw [isFirst.segments_eq, List.cons_append], ?_, isFirst.more, isFirst.found⟩
          exact List.forall_mem_cons.mpr ⟨toSplit_eq_none_iff.mp found, isFirst.settled⟩
      | some ends =>
          rw [found] at first
          cases first
          by_cases stars : segment = globstar
          · simp [stars] at found
          · exact ⟨segment, rfl, by simp, stars, by rwa [if_neg stars] at found⟩

end First

section Rewriting

variable {front behind : List Text} {segment head tail : Text}

/-- The segments with one star in place of the two. -/
def fewerStars (front : List Text) (head tail : Text) (behind : List Text) : List Text :=
  front ++ (head ++ '*' :: tail) :: behind

/-- The segments with directories between the two stars. -/
def apartStars (front : List Text) (head tail : Text) (behind : List Text) : List Text :=
  front ++ ([head ++ ['*'], globstar] ++ ('*' :: tail) :: behind)

/-- The second way leaves one text with slashes in it, which is three segments when it is looked through again. -/
theorem rewritings_of_first {glob : Text} (first : firstStars? (glob.split '/') = some (front, head, tail, behind)) :
    rewritings glob =
      [Text.join '/' (fewerStars front head tail behind), Text.join '/' (apartStars front head tail behind)] := by
  have fewer : head ++ ['*'] ++ tail = head ++ '*' :: tail := by simp
  have apart : head ++ ['*', '/', '*', '*', '/', '*'] ++ tail =
      Text.join '/' [head ++ ['*'], globstar, '*' :: tail] := by
    simp [Text.join, globstar]
  simp only [rewritings, first, List.map_cons, List.map_nil, fewer, apart]
  rw [Text.join_nested (by simp)]
  rfl

theorem rewritings_eq_nil_iff {glob : Text} : rewritings glob = [] ↔ IsSettled glob := by
  rw [IsSettled, ← firstStars?_eq_none_iff, rewritings]
  cases firstStars? (glob.split '/') <;> simp

section First

variable {segments : List Text} (first : IsFirst segments front segment head tail behind)

include first

theorem IsFirst.clear (clear : ∀ one ∈ segments, '/' ∉ one) :
    (∀ one ∈ fewerStars front head tail behind, '/' ∉ one) ∧
      ∀ one ∈ apartStars front head tail behind, '/' ∉ one := by
  rw [first.segments_eq, List.forall_mem_append, List.forall_mem_cons,
    eq_of_splitStars? first.found] at clear
  obtain ⟨before, inner, after⟩ := clear
  simp only [List.mem_append, List.mem_cons, not_or] at inner
  have fewer : '/' ∉ head ++ '*' :: tail := by simp [inner]
  have apart : ∀ one ∈ [head ++ ['*'], globstar], '/' ∉ one := by simp [inner, globstar]
  have later : '/' ∉ '*' :: tail := by simp [inner]
  constructor
  · exact List.forall_mem_append.mpr ⟨before, List.forall_mem_cons.mpr ⟨fewer, after⟩⟩
  · exact List.forall_mem_append.mpr
      ⟨before, List.forall_mem_append.mpr ⟨apart, List.forall_mem_cons.mpr ⟨later, after⟩⟩⟩

theorem IsFirst.expansionsOf_fewer :
    expansionsOf segments = expansionsOf (fewerStars front head tail behind) + 1 := by
  have count := (segmentExpansions_of_first first.more first.found).1
  rw [first.segments_eq, fewerStars]
  simp only [expansionsOf_append, expansionsOf_cons, count]
  omega

theorem IsFirst.expansionsOf_apart :
    expansionsOf (apartStars front head tail behind) ≤ expansionsOf (fewerStars front head tail behind) := by
  have count := (segmentExpansions_of_first first.more first.found).2
  obtain ⟨uncut, single⟩ := head_of_splitStars? first.found
  have start : segmentExpansions (head ++ ['*']) = 0 :=
    segmentExpansions_of_settled (isSettledSegment_iff.mpr (.inr (crosses_append_star uncut single)))
  have stars : segmentExpansions globstar = 0 := rfl
  have none : expansionsOf [] = 0 := rfl
  rw [fewerStars, apartStars]
  simp only [expansionsOf_append, expansionsOf_cons, start, stars, none]
  omega

theorem IsFirst.spreadAll_eq :
    spreadAll segments =
      spreadAll (fewerStars front head tail behind) ++ spreadAll (apartStars front head tail behind) := by
  obtain ⟨uncut, single⟩ := head_of_splitStars? first.found
  have start : IsSettledSegment (head ++ ['*']) :=
    isSettledSegment_iff.mpr (.inr (crosses_append_star uncut single))
  have stars : IsSettledSegment globstar := .inl rfl
  have parts : spreadAll (segment :: behind) =
      spreadAll ((head ++ '*' :: tail) :: behind) ++
        spreadAll ([head ++ ['*'], globstar] ++ ('*' :: tail) :: behind) := by
    rw [spreadAll_append_of_settled (by simp [start, stars])]
    simp only [spreadAll, spread_of_first first.more first.found, List.flatMap_append, List.flatMap_map,
      List.map_flatMap, List.map_map, Function.comp_def, List.cons_append, List.nil_append]
  rw [first.segments_eq, fewerStars, apartStars, spreadAll_append_of_settled first.settled,
    spreadAll_append_of_settled first.settled, spreadAll_append_of_settled first.settled, parts,
    List.map_append]

end First

end Rewriting

section Run

variable {glob : Text}

/-- What a glob is rewritten into: two globs, each with fewer surplus stars, that stand for the same as
the glob, in this order. -/
theorem rewritings_of_not_settled (more : ¬ IsSettled glob) :
    ∃ fewer apart, rewritings glob = [fewer, apart] ∧
      starExpansions glob = starExpansions fewer + 1 ∧ starExpansions apart ≤ starExpansions fewer ∧
        expandStars glob = (expandStars fewer ++ expandStars apart).eraseDups := by
  rw [IsSettled, ← firstStars?_eq_none_iff] at more
  obtain ⟨⟨front, head, tail, behind⟩, found⟩ := Option.ne_none_iff_exists'.mp more
  obtain ⟨segment, first⟩ := isFirst_of_firstStars? found
  obtain ⟨clearFewer, clearApart⟩ := first.clear fun one held => Text.separator_notMem_of_mem_split held
  have splitFewer := Text.split_join (by simp [fewerStars]) clearFewer
  have splitApart := Text.split_join (by simp [apartStars]) clearApart
  refine ⟨_, _, rewritings_of_first found, ?_, ?_, ?_⟩
  · rw [starExpansions_eq, starExpansions_eq, splitFewer, first.expansionsOf_fewer]
  · rw [starExpansions_eq, starExpansions_eq, splitFewer, splitApart]
    exact first.expansionsOf_apart
  · rw [expandStars, expandStars, expandStars, splitFewer, splitApart, first.spreadAll_eq, List.map_append,
      eraseDups_eraseDups_append, eraseDups_append_eraseDups]

theorem starExpansions_of_settled (settled : IsSettled glob) : starExpansions glob = 0 := by
  rw [starExpansions_eq]
  exact expansionsOf_of_settled settled

theorem expandStars_of_settled (settled : IsSettled glob) : expandStars glob = [glob] := by
  rw [expandStars, spreadAll_of_settled settled, List.map_singleton, Text.join_split]
  rfl

theorem rewriteStars_of_settled (settled : IsSettled glob) (levels : Nat) :
    rewriteStars levels glob = .ok [glob] := by
  rw [rewriteStars.eq_def, if_pos (rewritings_eq_nil_iff.mpr settled)]

/-- Rewriting comes to the globs that taking the stars of all segments apart at once gives, and it takes as
many rewritings in the result of each other as there are surplus stars. -/
theorem rewriteStars_eq (levels : Nat) (glob : Text) :
    rewriteStars levels glob =
      if levels < starExpansions glob then .error .tooManyExpansions else .ok (expandStars glob) := by
  induction levels generalizing glob with
  | zero =>
      by_cases settled : IsSettled glob
      · rw [rewriteStars_of_settled settled, if_neg (by simp [starExpansions_of_settled settled]),
          expandStars_of_settled settled]
      · obtain ⟨fewer, apart, rewritten, count, -, -⟩ := rewritings_of_not_settled settled
        rw [rewriteStars, if_neg (by simp [rewritten]), if_pos (by omega)]
  | succ levels ih =>
      by_cases settled : IsSettled glob
      · rw [rewriteStars_of_settled settled, if_neg (by simp [starExpansions_of_settled settled]),
          expandStars_of_settled settled]
      · obtain ⟨fewer, apart, rewritten, count, less, expanded⟩ := rewritings_of_not_settled settled
        rw [rewriteStars, if_neg (by simp [rewritten]), rewritten]
        by_cases many : levels < starExpansions fewer
        · have first := ih fewer
          rw [if_pos many] at first
          rw [List.mapM_cons, first, if_pos (by omega)]
          rfl
        · have first := ih fewer
          have second := ih apart
          rw [if_neg many] at first
          rw [if_neg (by omega)] at second
          rw [List.mapM_cons, List.mapM_cons, List.mapM_nil, first, second, if_neg (by omega), expanded]
          simp [bind, Except.bind, pure, Except.pure]

theorem expandStars_ne_nil (glob : Text) : expandStars glob ≠ [] := by
  obtain ⟨chosen, member⟩ := List.exists_mem_of_ne_nil _ (spreadAll_ne_nil (glob.split '/'))
  exact List.ne_nil_of_mem (mem_expandStars.mpr ⟨chosen, member, rfl⟩)

theorem isSettled_of_mem_expandStars {one : Text} (member : one ∈ expandStars glob) : IsSettled one := by
  obtain ⟨chosen, held, rfl⟩ := mem_expandStars.mp member
  have parts := parts_of_mem_spreadAll held
  have some := mt (eq_nil_iff_of_mem_spreadAll held).mp (Text.split_ne_nil '/' glob)
  have clear : ∀ segment ∈ chosen, '/' ∉ segment := by
    intro segment within inside
    obtain ⟨-, origin, among, made, -⟩ := parts segment within
    exact Text.separator_notMem_of_mem_split among (made _ inside)
  rw [IsSettled, Text.split_join some clear]
  exact fun segment within => isSettledSegment_iff.mpr (parts segment within).1

/-- Compiling an alternative begins with the rewriting of its stars. -/
theorem formsOf_eq_rewriteStars (pattern alternative : Text) :
    formsOf pattern alternative = (do
      (checkClasses alternative).mapError (.malformed pattern)
      let globs ← rewriteStars expansionLimit alternative
      globs.mapM fun glob =>
        match formOf? glob with
        | some form => .ok form
        | none => .error .reversedMember) := by
  rw [rewriteStars_eq]
  unfold formsOf
  split <;> rfl

/-- Rewriting ends in different settled globs, at least one, unless the glob has more surplus stars than there
may be rewritings in the result of each other; a settled glob is left as it is. -/
theorem rewriteStars_settles (glob : Text) :
    ∃ globs, (∀ levels, rewriteStars levels glob =
        if levels < starExpansions glob then .error .tooManyExpansions else .ok globs) ∧
      globs ≠ [] ∧ globs.Nodup ∧ (∀ one ∈ globs, IsSettled one) ∧ (IsSettled glob → globs = [glob]) := by
  refine ⟨expandStars glob, fun levels => rewriteStars_eq levels glob, expandStars_ne_nil glob,
    nodup_eraseDups _, ?_, expandStars_of_settled⟩
  exact fun one member => isSettled_of_mem_expandStars member

/-- Leaving out either star first and then taking the other two apart comes to the same glob. -/
example :
    (rewriteStars 2 "**/***b".toList).toOption =
      some (["**/*b", "**/*/**/*b", "**/*/**/*/**/*b"].map String.toList) := by
  decide +kernel

/-- A glob of too many stars in a row is not rewritten to the end. -/
theorem not_rewriteStars_starRow :
    ¬ ∃ globs, rewriteStars expansionLimit (List.replicate 1500 '*') = .ok globs := by
  intro found
  obtain ⟨globs, rewritten⟩ := found
  rw [rewriteStars_eq, starExpansions_replicate, if_pos (by decide)] at rewritten
  cases rewritten

end Run

end PathSearch.Glob
