import PathSearch.Glob.Globstar
import PathSearch.Proofs.Text.Split

/-!
The dialect of globs without braces and classes, as a user reads it: the segments of a glob consume the
names of a path in order, each segment its share of them.
-/

namespace PathSearch.Glob

/-- A text read by a segment: two stars stand for any text, one star for a text without slashes, a
question mark for one character of a name, and anything else for itself. -/
inductive Wild : Text → Text → Prop where
  | empty : Wild [] []
  | crossing {glob text : Text} (between : Text) (later : Wild glob text) :
      Wild ('*' :: '*' :: glob) (between ++ text)
  | run {glob text : Text} {inside : Text} (clear : '/' ∉ inside) (later : Wild glob text) :
      Wild ('*' :: glob) (inside ++ text)
  | single {glob text : Text} {character : Char} (clear : character ≠ '/')
      (later : Wild glob text) : Wild ('?' :: glob) (character :: text)
  | literal {glob text : Text} {character : Char} (plain : character ≠ '*' ∧ character ≠ '?')
      (later : Wild glob text) : Wild (character :: glob) (character :: text)

/-- The segment has two stars in a row. -/
def crosses (segment : Text) : Bool := Text.occursIn globstar segment

/-- The segment is made of two or more stars and nothing else. -/
def isStarRun (segment : Text) : Bool := 2 ≤ segment.length && segment.all (· = '*')

/-- The names that a segment may consume. Stars alone take any number of names, but at least one when
nothing follows; a segment with two stars elsewhere takes one or more names; any other takes one. -/
def Takes (segment : Text) (isLast : Prop) (taken : List Text) : Prop :=
  if isStarRun segment then isLast → taken ≠ []
  else if crosses segment then taken ≠ [] ∧ Wild segment (Text.join '/' taken)
  else ∃ name, taken = [name] ∧ Wild segment name

/-- Segments in a row consume all of the names. -/
inductive Consumes : List Text → List Text → Prop where
  | nil : Consumes [] []
  | cons {segment : Text} {rest taken names : List Text} (takes : Takes segment (rest = []) taken)
      (later : Consumes rest names) : Consumes (segment :: rest) (taken ++ names)

/-- The segments of a glob; a slash at its end acts as a final globstar. -/
def dialectSegments (glob : Text) : List Text :=
  let segments := glob.split '/'
  if segments.getLast? = some [] then segments.dropLast ++ [globstar] else segments

theorem consumes_cons_iff {segment : Text} {rest names : List Text} :
    Consumes (segment :: rest) names ↔
      ∃ taken later, names = taken ++ later ∧ Takes segment (rest = []) taken ∧
        Consumes rest later := by
  constructor
  · intro consumes
    cases consumes with
    | cons takes later => exact ⟨_, _, rfl, takes, later⟩
  · intro found
    obtain ⟨taken, later, rfl, takes, consumes⟩ := found
    exact .cons takes consumes

theorem consumes_nil_iff {names : List Text} : Consumes [] names ↔ names = [] := by
  constructor
  · rintro ⟨⟩
    rfl
  · intro same
    subst same
    exact .nil

theorem occursIn_iff_infix {part text : Text} : Text.occursIn part text = true ↔ part <:+: text := by
  induction text with
  | nil => simp [Text.occursIn]
  | cons character rest ih =>
      rw [Text.occursIn, Bool.or_eq_true, ih, List.infix_cons_iff, List.isPrefixOf_iff_prefix]

theorem crosses_iff {segment : Text} :
    crosses segment = true ↔ ∃ before after, segment = before ++ '*' :: '*' :: after := by
  rw [crosses, occursIn_iff_infix]
  constructor
  · intro found
    obtain ⟨before, after, rfl⟩ := found
    exact ⟨before, after, by simp [globstar]⟩
  · intro found
    obtain ⟨before, after, rfl⟩ := found
    exact ⟨before, after, by simp [globstar]⟩

theorem isStarRun_iff {segment : Text} :
    isStarRun segment = true ↔ 2 ≤ segment.length ∧ ∀ character ∈ segment, character = '*' := by
  simp [isStarRun]

theorem crosses_of_isStarRun {segment : Text} (stars : isStarRun segment = true) :
    crosses segment = true := by
  obtain ⟨long, all⟩ := isStarRun_iff.mp stars
  obtain ⟨first, second, rest, rfl⟩ : ∃ first second rest, segment = first :: second :: rest := by
    rcases segment with _ | ⟨first, _ | ⟨second, rest⟩⟩
    · simp at long
    · simp at long
    · exact ⟨first, second, rest, rfl⟩
  refine crosses_iff.mpr ⟨[], rest, ?_⟩
  rw [all first (by simp), all second (by simp)]
  rfl

namespace Wild

variable {first second glob text start rest : Text}

theorem append (one : Wild first start) (other : Wild second rest) :
    Wild (first ++ second) (start ++ rest) := by
  induction one with
  | empty => exact other
  | crossing between _ ih => simpa using ih.crossing between
  | run clear _ ih => simpa using ih.run clear
  | single clear _ ih => exact ih.single clear
  | literal plain _ ih => exact ih.literal plain

theorem uncut_tail {one : Char} (uncut : ∀ before, one :: first ≠ before ++ ['*']) :
    ∀ before, first ≠ before ++ ['*'] := by
  intro before same
  exact uncut (one :: before) (by rw [same]; rfl)

/-- A glob can be cut anywhere but between two stars. -/
theorem exists_of_append (uncut : ∀ before, first ≠ before ++ ['*'])
    (wild : Wild (first ++ second) text) :
    ∃ start rest, text = start ++ rest ∧ Wild first start ∧ Wild second rest := by
  generalize joined : first ++ second = glob at wild
  induction wild generalizing first with
  | empty =>
      obtain ⟨rfl, rfl⟩ := List.append_eq_nil_iff.mp joined
      exact ⟨[], [], rfl, .empty, .empty⟩
  | crossing between later ih =>
      rcases first with _ | ⟨one, _ | ⟨two, first⟩⟩
      · subst joined
        exact ⟨[], _, rfl, .empty, later.crossing between⟩
      · simp only [List.cons_append, List.cons.injEq] at joined
        exact absurd (by rw [joined.1]; rfl) (uncut [])
      · simp only [List.cons_append, List.cons.injEq] at joined
        obtain ⟨rfl, rfl, joined⟩ := joined
        obtain ⟨start, rest, rfl, one, other⟩ := ih (uncut_tail (uncut_tail uncut)) joined
        exact ⟨between ++ start, rest, by simp, one.crossing between, other⟩
  | @run glob text inside clear later ih =>
      rcases first with _ | ⟨one, first⟩
      · subst joined
        exact ⟨[], _, rfl, .empty, later.run clear⟩
      · simp only [List.cons_append, List.cons.injEq] at joined
        obtain ⟨rfl, joined⟩ := joined
        obtain ⟨start, rest, rfl, one, other⟩ := ih (uncut_tail uncut) joined
        exact ⟨inside ++ start, rest, by simp, one.run clear, other⟩
  | @single glob text character clear later ih =>
      rcases first with _ | ⟨one, first⟩
      · subst joined
        exact ⟨[], _, rfl, .empty, later.single clear⟩
      · simp only [List.cons_append, List.cons.injEq] at joined
        obtain ⟨rfl, joined⟩ := joined
        obtain ⟨start, rest, rfl, one, other⟩ := ih (uncut_tail uncut) joined
        exact ⟨character :: start, rest, rfl, one.single clear, other⟩
  | @literal glob text character plain later ih =>
      rcases first with _ | ⟨one, first⟩
      · subst joined
        exact ⟨[], _, rfl, .empty, later.literal plain⟩
      · simp only [List.cons_append, List.cons.injEq] at joined
        obtain ⟨rfl, joined⟩ := joined
        obtain ⟨start, rest, rfl, left, other⟩ := ih (uncut_tail uncut) joined
        exact ⟨one :: start, rest, rfl, left.literal plain, other⟩

/-- One star in front of a glob may be made two, and then more text may stand in front. -/
theorem widen (wild : Wild ('*' :: glob) text) (before : Text) :
    Wild ('*' :: '*' :: glob) (before ++ text) := by
  cases wild with
  | run _ later =>
      rw [← List.append_assoc]
      exact later.crossing _
  | crossing between later =>
      rw [← List.append_assoc]
      exact .crossing (before ++ between) (@Wild.run _ _ [] (by simp) later)
  | literal plain => exact absurd rfl plain.1

theorem exists_of_crossing (wild : Wild ('*' :: '*' :: glob) text) :
    ∃ between ending, text = between ++ ending ∧ Wild glob ending := by
  cases wild with
  | crossing between later => exact ⟨between, _, rfl, later⟩
  | @run _ _ inside _ later =>
      cases later with
      | @run _ ending more _ later => exact ⟨inside ++ more, ending, by simp, later⟩
      | @crossing _ ending between later =>
          exact ⟨inside ++ between, ending, by simp, @Wild.run _ _ [] (by simp) later⟩
      | literal plain => exact absurd rfl plain.1
  | literal plain => exact absurd rfl plain.1

theorem of_stars (stars : ∀ character ∈ glob, character = '*') : Wild glob [] := by
  induction glob with
  | nil => exact .empty
  | cons character glob ih =>
      obtain rfl := stars character (List.mem_cons_self ..)
      have later := ih fun other member => stars other (List.mem_cons_of_mem _ member)
      exact @Wild.run _ _ [] (by simp) later

theorem of_isStarRun (stars : isStarRun glob = true) (text : Text) : Wild glob text := by
  obtain ⟨long, all⟩ := isStarRun_iff.mp stars
  rcases glob with _ | ⟨one, _ | ⟨two, glob⟩⟩
  · simp at long
  · simp at long
  · obtain rfl := all one (by simp)
    obtain rfl := all two (by simp)
    have later : Wild glob [] := of_stars fun other member => all other (by simp [member])
    simpa using later.crossing text

theorem slash_notMem_of_star (wild : Wild ['*'] text) : '/' ∉ text := by
  cases wild with
  | run clear later =>
      cases later
      simpa using clear
  | literal plain => exact absurd rfl plain.1

/-- A segment without two stars in a row stays within one name. -/
theorem slash_notMem (clear : '/' ∉ glob) (within : crosses glob = false) (wild : Wild glob text) :
    '/' ∉ text := by
  have tail : ∀ {character : Char} {rest : Text}, crosses (character :: rest) = false →
      crosses rest = false := by
    intro character rest none
    simp only [crosses, Text.occursIn, Bool.or_eq_false_iff] at none
    exact none.2
  induction wild with
  | empty => simp
  | @crossing glob =>
      have two : crosses ('*' :: '*' :: glob) = true := crosses_iff.mpr ⟨[], glob, rfl⟩
      simp [within] at two
  | run inside _ ih =>
      simp only [List.mem_append, not_or]
      exact ⟨inside, ih (fun member => clear (List.mem_cons_of_mem _ member)) (tail within)⟩
  | single other _ ih =>
      simp only [List.mem_cons, not_or]
      exact ⟨Ne.symm other, ih (fun member => clear (List.mem_cons_of_mem _ member)) (tail within)⟩
  | literal _ _ ih =>
      simp only [List.mem_cons, not_or] at clear ⊢
      exact ⟨clear.1, ih clear.2 (tail within)⟩

end Wild

theorem eq_singleton_of_slash_notMem_join {names : List Text} (some : names ≠ [])
    (clear : '/' ∉ Text.join '/' names) : ∃ name, names = [name] := by
  rcases names with _ | ⟨name, _ | ⟨next, rest⟩⟩
  · exact absurd rfl some
  · exact ⟨name, rfl⟩
  · rw [Text.join_cons '/' name (by simp)] at clear
    simp at clear

/-- What all kinds of segments have in common: the names taken, joined by slashes, are a text that the
segment reads, save that stars alone may also take nothing. -/
theorem takes_iff {segment : Text} (clear : '/' ∉ segment) {isLast : Prop} {taken : List Text} :
    Takes segment isLast taken ↔
      (taken ≠ [] ∧ Wild segment (Text.join '/' taken)) ∨
        (taken = [] ∧ isStarRun segment = true ∧ ¬ isLast) := by
  unfold Takes
  by_cases stars : isStarRun segment = true
  · rw [if_pos stars]
    constructor
    · intro some
      by_cases none : taken = []
      · exact .inr ⟨none, stars, fun last => some last none⟩
      · exact .inl ⟨none, .of_isStarRun stars _⟩
    · intro either
      rcases either with ⟨some, -⟩ | ⟨-, -, notLast⟩
      · exact fun _ => some
      · exact fun last => absurd last notLast
  · rw [if_neg stars]
    cases across : crosses segment with
    | true => simp [stars]
    | false =>
        simp only [Bool.false_eq_true, if_false, stars, false_and, and_false, or_false]
        constructor
        · intro found
          obtain ⟨name, rfl, wild⟩ := found
          exact ⟨by simp, wild⟩
        · intro found
          obtain ⟨some, wild⟩ := found
          obtain ⟨name, rfl⟩ :=
            eq_singleton_of_slash_notMem_join some (wild.slash_notMem clear across)
          exact ⟨name, rfl, wild⟩

end PathSearch.Glob
