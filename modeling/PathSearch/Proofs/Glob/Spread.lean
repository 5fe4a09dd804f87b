import Mathlib.Logic.Basic
import PathSearch.Proofs.Glob.Dialect

/-! Taking two stars inside a segment apart, into one star or into three segments, keeps what is consumed. -/

namespace PathSearch.Glob

section Stars

variable {segment head tail : Text}

/-- The part before the first two stars has no two stars itself, not even with the next star. -/
theorem head_of_splitStars? (found : splitStars? segment = some (head, tail)) :
    (∀ before, head ≠ before ++ ['*']) ∧ crosses head = false := by
  fun_induction splitStars? segment generalizing head tail with
  | case1 rest =>
      simp only [Option.some.injEq, Prod.mk.injEq] at found
      obtain ⟨rfl, rfl⟩ := found
      exact ⟨by simp, rfl⟩
  | case2 character rest first ih =>
      obtain ⟨⟨inner, after⟩, held, same⟩ := Option.map_eq_some_iff.mp found
      simp only [Prod.mk.injEq] at same
      obtain ⟨rfl, rfl⟩ := same
      obtain ⟨uncut, single⟩ := ih held
      have shape := eq_of_splitStars? held
      have apart : ∀ following, character = '*' → inner ++ '*' :: '*' :: after ≠ '*' :: following := by
        intro following star same
        exact first following star (by rw [shape, same])
      constructor
      · intro before same
        cases before with
        | nil =>
            simp only [List.nil_append, List.cons.injEq] at same
            obtain ⟨star, rfl⟩ := same
            exact apart _ star rfl
        | cons other before =>
            simp only [List.cons_append, List.cons.injEq] at same
            exact uncut before same.2
      · simp only [crosses, Text.occursIn, Bool.or_eq_false_iff]
        refine ⟨?_, single⟩
        cases inner with
        | nil => simp [globstar, List.isPrefixOf]
        | cons next inner =>
            by_cases star : character = '*'
            · have other : next ≠ '*' := by
                intro none
                subst none
                exact apart _ star rfl
              simp [globstar, List.isPrefixOf, Ne.symm other]
            · simp [globstar, List.isPrefixOf, Ne.symm star]
  | case3 => simp at found

theorem crosses_append_star (uncut : ∀ before, head ≠ before ++ ['*'])
    (single : crosses head = false) : crosses (head ++ ['*']) = false := by
  rw [← Bool.not_eq_true, crosses_iff]
  intro found
  obtain ⟨before, after, same⟩ := found
  rcases List.eq_nil_or_concat after with rfl | ⟨later, last, rfl⟩
  · have shape : head ++ ['*'] = (before ++ ['*']) ++ ['*'] := by simpa using same
    exact uncut before (List.append_cancel_right shape)
  · have shape : head ++ ['*'] = (before ++ '*' :: '*' :: later) ++ [last] := by simpa using same
    have split := (List.append_inj' shape rfl).1
    have two : crosses head = true := crosses_iff.mpr ⟨before, later, split⟩
    simp [single] at two

/-- Of more than two stars, one can be left out. -/
theorem isStarRun_fewer (more : head ++ '*' :: '*' :: tail ≠ globstar) :
    isStarRun (head ++ '*' :: '*' :: tail) = isStarRun (head ++ '*' :: tail) := by
  have others : head ≠ [] ∨ tail ≠ [] := by
    by_cases none : head = []
    · subst none
      exact .inr fun none => more (by rw [none]; rfl)
    · exact .inl none
  have long : 1 ≤ head.length + tail.length := by
    rcases others with some | some
    · have := List.length_pos_iff.mpr some
      omega
    · have := List.length_pos_iff.mpr some
      omega
  rw [Bool.eq_iff_iff, isStarRun_iff, isStarRun_iff]
  simp only [List.length_append, List.length_cons, List.mem_append, List.mem_cons, or_self_left]
  refine and_congr_left fun _ => ?_
  omega

end Stars

theorem exists_last_slash {text : Text} (member : '/' ∈ text) :
    ∃ before after, text = before ++ '/' :: after ∧ '/' ∉ after := by
  obtain ⟨after, before, shape, clear⟩ :=
    List.eq_append_cons_of_mem (List.mem_reverse.mpr member)
  refine ⟨before.reverse, after.reverse, ?_, by simpa using clear⟩
  have turned := congrArg List.reverse shape
  simpa using turned

/-- Where two stars cross a slash, the text before the first slash and the one after the last slash that
they cross belong to names of their own. -/
theorem Wild.crossed {head tail text : Text} (uncut : ∀ before, head ≠ before ++ ['*'])
    (clear : '/' ∉ head) (single : crosses head = false)
    (wild : Wild (head ++ '*' :: '*' :: tail) text) :
    Wild (head ++ '*' :: tail) text ∨
      ∃ first middle last, '/' ∉ first ∧ Wild (head ++ ['*']) first ∧ Wild ('*' :: tail) last ∧
        (text = first ++ '/' :: last ∨ text = first ++ '/' :: (middle ++ '/' :: last)) := by
  obtain ⟨start, rest, rfl, one, stars⟩ := wild.exists_of_append uncut
  obtain ⟨between, ending, rfl, other⟩ := stars.exists_of_crossing
  have within := one.slash_notMem clear single
  by_cases slash : '/' ∈ between
  · obtain ⟨before, after, rfl, free⟩ := List.eq_append_cons_of_mem slash
    have name : Wild (head ++ ['*']) (start ++ before) := by
      have last : Wild ['*'] (before ++ []) := .run free .empty
      rw [List.append_nil] at last
      exact one.append last
    have nameFree : '/' ∉ start ++ before := by
      simp only [List.mem_append, not_or]
      exact ⟨within, free⟩
    by_cases again : '/' ∈ after
    · obtain ⟨middle, finish, rfl, clean⟩ := exists_last_slash again
      exact .inr ⟨start ++ before, middle, finish ++ ending, nameFree, name, other.run clean,
        .inr (by simp)⟩
    · exact .inr ⟨start ++ before, [], after ++ ending, nameFree, name, other.run again,
        .inl (by simp)⟩
  · exact .inl (one.append (other.run slash))

theorem exists_join_cons (name : Text) (names : List Text) :
    ∃ following, Text.join '/' (name :: names) = name ++ following := by
  cases names with
  | nil => exact ⟨[], by simp [Text.join]⟩
  | cons next rest => exact ⟨'/' :: Text.join '/' (next :: rest), Text.join_cons '/' name (by simp)⟩

/-- The names in which the first and the last part of a crossing stand. -/
theorem exists_between_of_join_eq {names : List Text} {first middle last : Text} (some : names ≠ [])
    (clean : ∀ name ∈ names, '/' ∉ name) (free : '/' ∉ first)
    (split : Text.join '/' names = first ++ '/' :: last ∨
      Text.join '/' names = first ++ '/' :: (middle ++ '/' :: last)) :
    ∃ between, names = [first] ++ (between ++ last.split '/') := by
  rcases split with split | split
  · refine ⟨[], ?_⟩
    rw [Text.eq_append_of_join_eq some clean split, Text.split_eq_singleton free]
    rfl
  · refine ⟨Text.split '/' middle, ?_⟩
    rw [Text.eq_append_of_join_eq some clean split, Text.split_eq_singleton free, Text.split_append]

section Step

variable {segment head tail : Text} {rest names : List Text}
  (found : splitStars? segment = some (head, tail)) (more : segment ≠ globstar)
  (clear : '/' ∉ segment)

include found more clear

/-- One star instead of two may consume less, never more. -/
theorem consumes_of_fewer (consumes : Consumes ((head ++ '*' :: tail) :: rest) names) :
    Consumes (segment :: rest) names := by
  have shape := eq_of_splitStars? found
  obtain ⟨uncut, -⟩ := head_of_splitStars? found
  obtain ⟨taken, later, rfl, takes, others⟩ := consumes_cons_iff.mp consumes
  refine .cons ?_ others
  have free : '/' ∉ head ++ '*' :: tail := by
    simp only [shape, List.mem_append, List.mem_cons, not_or] at clear ⊢
    exact ⟨clear.1, clear.2.1, clear.2.2.2⟩
  rcases (takes_iff free).mp takes with ⟨some, wild⟩ | ⟨none, stars, notLast⟩
  · refine (takes_iff clear).mpr (.inl ⟨some, ?_⟩)
    obtain ⟨start, ending, split, one, other⟩ := wild.exists_of_append uncut
    rw [split, shape]
    exact one.append (other.widen [])
  · refine (takes_iff clear).mpr (.inr ⟨none, ?_, notLast⟩)
    rw [shape] at more ⊢
    rw [isStarRun_fewer more]
    exact stars

omit more in
/-- A name of its own, any directories, and what begins with a star again are names that two stars can
stand among. -/
theorem consumes_of_separate
    (consumes : Consumes ((head ++ ['*']) :: globstar :: ('*' :: tail) :: rest) names) :
    Consumes (segment :: rest) names := by
  have shape := eq_of_splitStars? found
  obtain ⟨uncut, single⟩ := head_of_splitStars? found
  obtain ⟨one, _, rfl, takesOne, consumes⟩ := consumes_cons_iff.mp consumes
  obtain ⟨between, _, rfl, -, consumes⟩ := consumes_cons_iff.mp consumes
  obtain ⟨taken, later, rfl, takes, others⟩ := consumes_cons_iff.mp consumes
  have free : '/' ∉ '*' :: tail := by
    simp only [shape, List.mem_append, List.mem_cons, not_or] at clear ⊢
    exact clear.2.2
  obtain ⟨name, rfl, wildOne⟩ : ∃ name, one = [name] ∧ Wild (head ++ ['*']) name := by
    have plain := crosses_append_star uncut single
    have few : isStarRun (head ++ ['*']) ≠ true := fun stars => by
      simp [crosses_of_isStarRun stars] at plain
    simpa [Takes, few, plain] using takesOne
  have split : [name] ++ (between ++ (taken ++ later)) = (name :: (between ++ taken)) ++ later := by
    simp
  rw [split]
  refine .cons ?_ others
  refine (takes_iff clear).mpr (.inl ⟨by simp, ?_⟩)
  -- The joined names are the first one, then anything, then what the rest of the segment reads.
  obtain ⟨middle, last, joined, wildLast⟩ : ∃ middle last,
      Text.join '/' (name :: (between ++ taken)) = name ++ (middle ++ last) ∧
        Wild ('*' :: tail) last := by
    rcases (takes_iff free).mp takes with ⟨some, wild⟩ | ⟨none, stars, -⟩
    · obtain ⟨following, start⟩ := exists_join_cons name between
      refine ⟨following ++ ['/'], Text.join '/' taken, ?_, wild⟩
      rw [← List.cons_append, Text.join_append '/' (by simp) some, start]
      simp
    · obtain ⟨following, start⟩ := exists_join_cons name (between ++ taken)
      exact ⟨following, [], by simpa using start, .of_isStarRun stars []⟩
  obtain ⟨start, inside, rfl, wildHead, -⟩ := wildOne.exists_of_append uncut
  rw [joined, shape, List.append_assoc, ← List.append_assoc inside]
  exact wildHead.append (wildLast.widen (inside ++ middle))

theorem consumes_split (clean : ∀ name ∈ names, '/' ∉ name) :
    Consumes (segment :: rest) names ↔
      Consumes ((head ++ '*' :: tail) :: rest) names ∨
        Consumes ((head ++ ['*']) :: globstar :: ('*' :: tail) :: rest) names := by
  refine ⟨?_, fun either => either.elim (consumes_of_fewer found more clear)
    (consumes_of_separate found clear)⟩
  intro consumes
  have shape := eq_of_splitStars? found
  obtain ⟨uncut, single⟩ := head_of_splitStars? found
  obtain ⟨taken, later, rfl, takes, others⟩ := consumes_cons_iff.mp consumes
  simp only [shape, List.mem_append, List.mem_cons, not_or] at clear
  obtain ⟨clearHead, clearStar, -, clearTail⟩ := clear
  have clearFewer : '/' ∉ head ++ '*' :: tail := by simp [clearHead, clearStar, clearTail]
  have clearOne : '/' ∉ head ++ ['*'] := by simp [clearHead, clearStar]
  have clearLast : '/' ∉ '*' :: tail := by simp [clearStar, clearTail]
  have clearSegment : '/' ∉ segment := by simp [shape, clearHead, clearStar, clearTail]
  rcases (takes_iff clearSegment).mp takes with ⟨some, wild⟩ | ⟨rfl, stars, notLast⟩
  · rw [shape] at wild
    rcases wild.crossed uncut clearHead single with wild | ⟨first, middle, last, free, one, other, split⟩
    · exact .inl (.cons ((takes_iff clearFewer).mpr (.inl ⟨some, wild⟩)) others)
    · have pieces : ∀ name ∈ taken, '/' ∉ name := fun name member =>
        clean name (List.mem_append_left _ member)
      obtain ⟨between, shared⟩ := exists_between_of_join_eq some pieces free split
      rw [shared, List.append_assoc, List.append_assoc]
      refine .inr (.cons ?_ (.cons ?_ (.cons ?_ others)))
      · exact (takes_iff clearOne).mpr (.inl ⟨by simp, one⟩)
      · simp [Takes, globstar, isStarRun]
      · refine (takes_iff clearLast).mpr (.inl ⟨Text.split_ne_nil '/' last, ?_⟩)
        rw [Text.join_split]
        exact other
  · refine .inl (.cons ((takes_iff clearFewer).mpr (.inr ⟨rfl, ?_, notLast⟩)) others)
    rw [shape] at more stars
    rw [← isStarRun_fewer more]
    exact stars

end Step

/-- Alternatives for what follows a segment. -/
theorem consumes_cons_of_alternatives {segment : Text} {rest names : List Text}
    {tails : List (List Text)} (ends : ∀ tail ∈ tails, (tail = [] ↔ rest = []))
    (same : ∀ names, (∀ name ∈ names, '/' ∉ name) →
      (Consumes rest names ↔ ∃ tail ∈ tails, Consumes tail names))
    (clean : ∀ name ∈ names, '/' ∉ name) :
    Consumes (segment :: rest) names ↔ ∃ tail ∈ tails, Consumes (segment :: tail) names := by
  constructor
  · intro consumes
    obtain ⟨taken, later, rfl, takes, others⟩ := consumes_cons_iff.mp consumes
    obtain ⟨tail, member, inner⟩ :=
      (same later fun name held => clean name (List.mem_append_right _ held)).mp others
    refine ⟨tail, member, .cons ?_ inner⟩
    rwa [propext (ends tail member)]
  · intro found
    obtain ⟨tail, member, consumes⟩ := found
    obtain ⟨taken, later, rfl, takes, others⟩ := consumes_cons_iff.mp consumes
    have inner :=
      (same later fun name held => clean name (List.mem_append_right _ held)).mpr ⟨tail, member, others⟩
    refine .cons ?_ inner
    rwa [← propext (ends tail member)]

theorem ne_nil_of_mem_spread {segment : Text} {start : List Text} (member : start ∈ spread segment) :
    start ≠ [] := by
  fun_induction spread segment with
  | case1 => simp_all
  | case2 => simp_all
  | case3 head tail more found one other =>
      rcases List.mem_append.mp member with member | member
      · exact one member
      · obtain ⟨deeper, -, rfl⟩ := List.mem_map.mp member
        simp

/-- The segment sequences that a segment stands for consume together what the segment consumes. -/
theorem consumes_spread {segment : Text} (clear : '/' ∉ segment) {rest names : List Text}
    (clean : ∀ name ∈ names, '/' ∉ name) :
    Consumes (segment :: rest) names ↔ ∃ start ∈ spread segment, Consumes (start ++ rest) names := by
  fun_induction spread segment generalizing rest names with
  | case1 => simp
  | case2 => simp
  | case3 head tail more found one other =>
      have clearFewer : '/' ∉ head ++ '*' :: tail := by
        simp only [List.mem_append, List.mem_cons, not_or] at clear ⊢
        exact ⟨clear.1, clear.2.1, clear.2.2.2⟩
      have clearLast : '/' ∉ '*' :: tail := by
        simp only [List.mem_append, List.mem_cons, not_or] at clear ⊢
        exact clear.2.2
      let tails := (spread ('*' :: tail)).map fun deeper => deeper ++ rest
      have ends : ∀ following ∈ tails, (following = [] ↔ ('*' :: tail) :: rest = []) := by
        intro following member
        obtain ⟨deeper, held, rfl⟩ := List.mem_map.mp member
        simp [ne_nil_of_mem_spread held]
      have last : ∀ names, (∀ name ∈ names, '/' ∉ name) →
          (Consumes (('*' :: tail) :: rest) names ↔
            ∃ following ∈ tails, Consumes following names) := by
        intro names clean
        rw [other clearLast clean]
        simp [tails]
      have middle : ∀ names, (∀ name ∈ names, '/' ∉ name) →
          (Consumes (globstar :: ('*' :: tail) :: rest) names ↔
            ∃ following ∈ tails.map (globstar :: ·), Consumes following names) := by
        intro names clean
        rw [consumes_cons_of_alternatives ends last clean]
        simp
      rw [consumes_split found more clear clean, one clearFewer clean,
        consumes_cons_of_alternatives (by simp) middle clean]
      simp only [List.mem_append, or_and_right, exists_or]
      simp [tails]

theorem consumes_append_of_alternatives {rest : List Text} {tails : List (List Text)}
    (ends : ∀ tail ∈ tails, (tail = [] ↔ rest = []))
    (same : ∀ names, (∀ name ∈ names, '/' ∉ name) →
      (Consumes rest names ↔ ∃ tail ∈ tails, Consumes tail names))
    (start : List Text) {names : List Text} (clean : ∀ name ∈ names, '/' ∉ name) :
    Consumes (start ++ rest) names ↔ ∃ tail ∈ tails, Consumes (start ++ tail) names := by
  induction start generalizing names with
  | nil => exact same names clean
  | cons segment start ih =>
      have further : ∀ tail ∈ tails.map (start ++ ·), (tail = [] ↔ start ++ rest = []) := by
        intro tail member
        obtain ⟨inner, held, rfl⟩ := List.mem_map.mp member
        simp [ends inner held]
      have inner : ∀ names, (∀ name ∈ names, '/' ∉ name) →
          (Consumes (start ++ rest) names ↔
            ∃ tail ∈ tails.map (start ++ ·), Consumes tail names) := by
        intro names clean
        rw [ih clean]
        simp
      rw [List.cons_append, consumes_cons_of_alternatives further inner clean]
      simp

theorem eq_nil_iff_of_mem_spreadAll {segments chosen : List Text}
    (member : chosen ∈ spreadAll segments) : chosen = [] ↔ segments = [] := by
  cases segments with
  | nil => simpa [spreadAll] using member
  | cons segment rest =>
      simp only [spreadAll, List.mem_flatMap, List.mem_map] at member
      obtain ⟨start, first, later, -, rfl⟩ := member
      simp [ne_nil_of_mem_spread first]

theorem consumes_spreadAll {segments names : List Text} (clear : ∀ segment ∈ segments, '/' ∉ segment)
    (clean : ∀ name ∈ names, '/' ∉ name) :
    Consumes segments names ↔ ∃ chosen ∈ spreadAll segments, Consumes chosen names := by
  induction segments generalizing names with
  | nil => simp [spreadAll]
  | cons segment rest ih =>
      have later := fun segment member => clear segment (List.mem_cons_of_mem _ member)
      have inner := consumes_append_of_alternatives
        (fun _ member => eq_nil_iff_of_mem_spreadAll member) (fun _ => ih later)
      rw [consumes_spread (clear segment (List.mem_cons_self ..)) clean]
      simp only [spreadAll, List.mem_flatMap, List.mem_map]
      constructor
      · intro found
        obtain ⟨start, first, consumes⟩ := found
        obtain ⟨chosen, member, whole⟩ := (inner start clean).mp consumes
        exact ⟨start ++ chosen, ⟨start, first, chosen, member, rfl⟩, whole⟩
      · intro found
        obtain ⟨_, ⟨start, first, chosen, member, rfl⟩, whole⟩ := found
        exact ⟨start, first, (inner start clean).mpr ⟨chosen, member, whole⟩⟩

end PathSearch.Glob
