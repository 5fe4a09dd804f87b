import PathSearch.Proofs.Glob.Classes
import PathSearch.Proofs.Glob.Compiled
import PathSearch.Proofs.Glob.Expanded

/-!
Blanks at the end of a glob. They go with the end of its line, but its stars are taken apart before that: the
blanks make no difference unless the last segment is a globstar or ends in three stars.
-/

namespace PathSearch.Glob

/-- How the segment is spread stays the same with text behind it. -/
def IsExtensible (segment : Text) : Prop := segment ≠ globstar ∧ ¬ ['*', '*', '*'] <:+ segment

instance (segment : Text) : Decidable (IsExtensible segment) := inferInstanceAs (Decidable (_ ∧ _))

section Segment

variable {segment head after tail : Text}

theorem splitStars?_append (found : splitStars? segment = some (head, after)) (tail : Text) :
    splitStars? (segment ++ tail) = some (head, after ++ tail) := by
  fun_induction splitStars? segment generalizing head with
  | case1 rest =>
      cases found
      rfl
  | case2 character rest first ih =>
      obtain ⟨⟨inner, later⟩, held, same⟩ := Option.map_eq_some_iff.mp found
      cases same
      have shape := eq_of_splitStars? held
      have apart : ∀ following, character = '*' → rest ++ tail = '*' :: following → False := by
        intro following star same
        rw [shape, List.append_assoc] at same
        cases inner with
        | nil => exact first _ star shape
        | cons next inner =>
            obtain ⟨rfl, -⟩ := List.cons.inj same
            exact first _ star shape
      rw [List.cons_append, splitStars?, ih held]
      · rfl
      · exact apart
  | case3 => cases found

theorem spread_of_splitStars? (other : segment ≠ globstar)
    (found : splitStars? segment = some (head, after)) :
    spread segment = spread (head ++ '*' :: after) ++
      (spread ('*' :: after)).map fun deeper => (head ++ ['*']) :: globstar :: deeper := by
  rw [spread, if_neg other]
  split
  · simp_all
  · simp_all

theorem crosses_append (starless : '*' ∉ tail) : crosses (segment ++ tail) = crosses segment := by
  rw [Bool.eq_iff_iff, crosses_iff, crosses_iff]
  constructor
  · intro found
    obtain ⟨before, later, shape⟩ := found
    rcases List.append_eq_append_iff.mp shape with ⟨more, -, inside⟩ | ⟨more, rfl, inside⟩
    · exact absurd (by simp [inside]) starless
    · rcases more with _ | ⟨first, _ | ⟨second, more⟩⟩
      · rw [List.nil_append] at inside
        exact absurd (inside ▸ List.mem_cons_self ..) starless
      · rw [List.singleton_append, List.cons.injEq] at inside
        exact absurd (inside.2 ▸ List.mem_cons_self ..) starless
      · simp only [List.cons_append, List.cons.injEq] at inside
        obtain ⟨rfl, rfl, -⟩ := inside
        exact ⟨before, more, rfl⟩
  · intro found
    obtain ⟨before, later, rfl⟩ := found
    exact ⟨before, later ++ tail, by simp⟩

theorem IsExtensible.behind (extensible : IsExtensible (head ++ '*' :: '*' :: after)) :
    IsExtensible ('*' :: after) := by
  refine ⟨?_, fun stars => extensible.2 (stars.trans ⟨head ++ ['*'], by simp⟩)⟩
  intro same
  obtain rfl : after = ['*'] := (List.cons.inj same).2
  exact extensible.2 (List.suffix_append ..)

theorem IsExtensible.fewer (extensible : IsExtensible (head ++ '*' :: '*' :: after))
    (uncut : ∀ before, head ≠ before ++ ['*']) : IsExtensible (head ++ '*' :: after) := by
  have behind := extensible.behind
  constructor
  · intro same
    cases head with
    | nil => exact behind.1 same
    | cons first head =>
        obtain ⟨rfl, later⟩ := List.cons.inj same
        cases head with
        | nil => exact uncut [] rfl
        | cons second head => simp at later
  · intro stars
    obtain ⟨before, shape⟩ := stars
    rcases List.append_eq_append_iff.mp shape with ⟨more, rfl, inside⟩ | ⟨more, rfl, inside⟩
    · rcases List.eq_nil_or_concat more with rfl | ⟨initial, last, rfl⟩
      · exact behind.2 ⟨[], inside⟩
      · have star : last ∈ ['*', '*', '*'] := by simp [inside]
        obtain rfl : last = '*' := by simpa using star
        exact uncut (before ++ initial) (by simp)
    · exact behind.2 ⟨more, inside.symm⟩

theorem append_ne_globstar (starless : '*' ∉ tail) (some : tail ≠ []) : segment ++ tail ≠ globstar := by
  intro same
  have stars : ∀ character ∈ tail, character = '*' := by
    intro character member
    have inside : character ∈ globstar := same ▸ List.mem_append_right _ member
    simpa [globstar] using inside
  obtain ⟨first, rest, rfl⟩ := List.exists_cons_of_ne_nil some
  obtain rfl := stars first (List.mem_cons_self ..)
  exact starless (List.mem_cons_self ..)

/-- The last of the segments that the segment is spread into takes the text behind it. -/
theorem mem_spread_append (extensible : IsExtensible segment) (starless : '*' ∉ tail) (some : tail ≠ [])
    {chosen : List Text} :
    chosen ∈ spread (segment ++ tail) ↔
      ∃ before last, before ++ [last] ∈ spread segment ∧ chosen = before ++ [last ++ tail] := by
  fun_induction spread segment generalizing chosen with
  | case1 => exact absurd rfl extensible.1
  | case2 segment _ found =>
      have single := crosses_of_splitStars?_eq_none found
      rw [← crosses_append starless] at single
      rw [spread_eq_of_single single, List.mem_singleton]
      constructor
      · intro same
        exact ⟨[], segment, List.mem_singleton.mpr rfl, same⟩
      · intro given
        obtain ⟨before, last, alone, rfl⟩ := given
        obtain ⟨rfl, rfl⟩ : before = [] ∧ last = segment := by
          simpa [List.append_eq_singleton_iff] using alone
        rfl
  | case3 head after _ found fewer behind =>
      have shorter := @fewer (extensible.fewer (head_of_splitStars? found).1) chosen
      have deeper := fun inner => @behind extensible.behind inner
      rw [List.append_assoc, List.cons_append] at shorter
      rw [spread_of_splitStars? (append_ne_globstar starless some) (splitStars?_append found tail),
        List.mem_append, List.mem_map, shorter]
      constructor
      · intro given
        rcases given with ⟨before, last, member, rfl⟩ | ⟨inner, member, rfl⟩
        · exact ⟨before, last, List.mem_append_left _ member, rfl⟩
        · obtain ⟨before, last, held, rfl⟩ := (deeper inner).mp member
          refine ⟨(head ++ ['*']) :: globstar :: before, last, ?_, rfl⟩
          exact List.mem_append_right _ (List.mem_map.mpr ⟨_, held, rfl⟩)
      · intro given
        obtain ⟨before, last, member, rfl⟩ := given
        rcases List.mem_append.mp member with member | member
        · exact .inl ⟨before, last, member, rfl⟩
        · obtain ⟨inner, held, shape⟩ := List.mem_map.mp member
          obtain ⟨between, final, rfl⟩ :=
            (List.eq_nil_or_concat inner).resolve_left (ne_nil_of_mem_spread held)
          rw [List.concat_eq_append] at held shape
          have whole : ((head ++ ['*']) :: globstar :: between) ++ [final] = before ++ [last] := shape
          obtain ⟨rfl, same⟩ := List.append_inj' whole rfl
          obtain rfl := List.singleton_inj.mp same
          exact .inr ⟨_, (deeper _).mpr ⟨between, final, held, rfl⟩, rfl⟩

theorem starPairs_append (starless : '*' ∉ tail) : starPairs (segment ++ tail) = starPairs segment := by
  fun_induction starPairs segment with
  | case1 rest ih => simpa [starPairs] using ih
  | case2 character rest first ih =>
      rw [List.cons_append, starPairs, ih]
      intro following star same
      cases rest with
      | nil => exact starless (by simp [show tail = _ from same])
      | cons next rest =>
          obtain ⟨rfl, -⟩ := List.cons.inj same
          exact first _ star rfl
  | case3 => exact starPairs_of_starless starless

theorem segmentExpansions_append (extensible : IsExtensible segment) (starless : '*' ∉ tail)
    (some : tail ≠ []) : segmentExpansions (segment ++ tail) = segmentExpansions segment := by
  have mixed : ¬ (segment ++ tail).all (· = '*') = true := by
    intro stars
    obtain ⟨first, rest, rfl⟩ := List.exists_cons_of_ne_nil some
    have star : first = '*' := by simpa using List.all_eq_true.mp stars first (by simp)
    exact starless (by simp [star])
  rw [segmentExpansions, segmentExpansions, if_neg mixed, starPairs_append starless]
  by_cases stars : segment.all (· = '*') = true
  · have shape : segment = List.replicate segment.length '*' :=
      List.eq_replicate_iff.mpr ⟨rfl, by simpa using stars⟩
    generalize segment.length = count at shape
    subst shape
    rcases count with _ | _ | _ | count
    · rfl
    · rfl
    · exact absurd rfl extensible.1
    · refine absurd ⟨List.replicate count '*', ?_⟩ extensible.2
      exact List.replicate_append_replicate (n := count) (m := 3)
  · rw [if_neg stars]

end Segment

/-- The last segment of a glob, empty when the glob ends in a slash. -/
def lastSegment (glob : Text) : Text := (glob.split '/').getLast?.getD []

section Glob

variable {pattern other glob tail : Text} (extensible : IsExtensible (lastSegment glob))
  (starless : '*' ∉ tail) (clear : '/' ∉ tail)

theorem join_append_last (before : List Text) (last tail : Text) :
    Text.join '/' (before ++ [last ++ tail]) = Text.join '/' (before ++ [last]) ++ tail := by
  by_cases none : before = []
  · simp [none, Text.join]
  · rw [Text.join_append '/' none (by simp), Text.join_append '/' none (by simp)]
    simp [Text.join]

theorem mem_spreadAll_singleton {segment : Text} {chosen : List Text} :
    chosen ∈ spreadAll [segment] ↔ chosen ∈ spread segment := by
  rw [mem_spreadAll_cons]
  simp [spreadAll]

include extensible starless clear

theorem mem_expandStars_append {one : Text} :
    one ∈ expandStars (glob ++ tail) ↔ ∃ shorter ∈ expandStars glob, one = shorter ++ tail := by
  by_cases none : tail = []
  · simp [none]
  obtain ⟨before, last, alone, longer⟩ := Text.exists_split_append clear glob
  have same : lastSegment glob = last := by simp [lastSegment, alone]
  rw [same] at extensible
  simp only [mem_expandStars, alone, longer, mem_spreadAll_append, mem_spreadAll_singleton,
    mem_spread_append extensible starless none]
  constructor
  · intro found
    obtain ⟨_, ⟨start, _, first, ⟨between, final, held, rfl⟩, rfl⟩, rfl⟩ := found
    refine ⟨_, ⟨_, ⟨start, _, first, held, rfl⟩, rfl⟩, ?_⟩
    rw [← List.append_assoc, ← List.append_assoc, join_append_last]
  · intro found
    obtain ⟨_, ⟨_, ⟨start, later, first, held, rfl⟩, rfl⟩, rfl⟩ := found
    obtain ⟨between, final, rfl⟩ := (List.eq_nil_or_concat later).resolve_left (ne_nil_of_mem_spread held)
    rw [List.concat_eq_append] at held ⊢
    refine ⟨_, ⟨start, _, first, ⟨between, final, held, rfl⟩, rfl⟩, ?_⟩
    rw [← List.append_assoc, ← List.append_assoc, join_append_last]

theorem starExpansions_append : starExpansions (glob ++ tail) = starExpansions glob := by
  by_cases none : tail = []
  · rw [none, List.append_nil]
  obtain ⟨before, last, alone, longer⟩ := Text.exists_split_append clear glob
  have same : lastSegment glob = last := by simp [lastSegment, alone]
  rw [same] at extensible
  rw [starExpansions, starExpansions, alone, longer, List.foldr_append, List.foldr_append]
  simp only [List.foldr_cons, List.foldr_nil, segmentExpansions_append extensible starless none]

end Glob

theorem checkClasses_append_tail {tail : Text} (unopened : '[' ∉ tail) (closeless : ']' ∉ tail)
    (text : Text) : checkClasses (text ++ tail) = checkClasses text := by
  fun_induction checkClasses text with
  | case1 => exact checkClasses_of_unclassed unopened
  | case2 rest unclosed =>
      have longer := enclosed?_append_eq_none closeless unclosed
      rw [List.cons_append, checkClasses, if_pos rfl]
      split <;> simp_all
  | case3 rest inner beyond found _ first last back =>
      have longer := enclosed?_append_eq_some found tail
      rw [List.cons_append, checkClasses, if_pos rfl]
      split <;> simp_all
  | case4 rest inner beyond found _ forward ih =>
      have longer := enclosed?_append_eq_some found tail
      rw [List.cons_append, checkClasses, if_pos rfl]
      split <;> simp_all
  | case5 character rest other ih => rw [List.cons_append, checkClasses, if_neg other, ih]

section Blank

variable {pattern other glob tail : Text} (blank : ∀ character ∈ tail, Text.isBlank character = true)

include blank

theorem formOf?_append (glob : Text) : formOf? (glob ++ tail) = formOf? glob := by
  have clear : '/' ∉ tail := Text.notMem_of_isBlank blank (by decide)
  have line : anchoredLine (glob ++ tail) = anchoredLine glob := by
    have first : ['/'].isPrefixOf (glob ++ tail) = ['/'].isPrefixOf glob := by
      cases glob with
      | cons character rest => rfl
      | nil =>
          cases tail with
          | nil => rfl
          | cons first rest =>
              rw [List.mem_cons, not_or] at clear
              simpa [List.isPrefixOf] using clear.1
    rw [anchoredLine, anchoredLine, first]
    by_cases rooted : ['/'].isPrefixOf glob = true
    · rw [if_pos rooted, if_pos rooted]
      exact Text.trimRight_append_dropped blank
    · rw [if_neg rooted, if_neg rooted, ← List.cons_append]
      exact Text.trimRight_append_dropped blank
  rw [formOf?, formOf?, line]

theorem exists_expanded_append_iff (extensible : IsExtensible (lastSegment glob)) {form : Form} :
    (∃ one ∈ expandStars (glob ++ tail), formOf? one = some form) ↔
      ∃ one ∈ expandStars glob, formOf? one = some form := by
  have starless : '*' ∉ tail := Text.notMem_of_isBlank blank (by decide)
  have clear : '/' ∉ tail := Text.notMem_of_isBlank blank (by decide)
  simp only [mem_expandStars_append extensible starless clear]
  constructor
  · intro found
    obtain ⟨_, ⟨shorter, expanded, rfl⟩, made⟩ := found
    exact ⟨shorter, expanded, by rwa [formOf?_append blank] at made⟩
  · intro found
    obtain ⟨shorter, expanded, made⟩ := found
    exact ⟨_, ⟨shorter, expanded, rfl⟩, by rwa [formOf?_append blank]⟩

theorem exists_formsOf_append_iff (extensible : IsExtensible (lastSegment glob)) :
    (∃ forms, formsOf pattern (glob ++ tail) = .ok forms) ↔ ∃ forms, formsOf other glob = .ok forms := by
  have starless : '*' ∉ tail := Text.notMem_of_isBlank blank (by decide)
  have clear : '/' ∉ tail := Text.notMem_of_isBlank blank (by decide)
  have unopened : '[' ∉ tail := Text.notMem_of_isBlank blank (by decide)
  have closeless : ']' ∉ tail := Text.notMem_of_isBlank blank (by decide)
  rw [exists_formsOf_iff, exists_formsOf_iff, checkClasses_append_tail unopened closeless,
    starExpansions_append extensible starless clear]
  simp only [mem_expandStars_append extensible starless clear]
  refine and_congr_right fun _ => and_congr_right fun _ => ?_
  constructor
  · intro made one expanded
    have form := made _ ⟨one, expanded, rfl⟩
    rwa [formOf?_append blank] at form
  · intro made _ found
    obtain ⟨shorter, expanded, rfl⟩ := found
    rw [formOf?_append blank]
    exact made shorter expanded

end Blank

end PathSearch.Glob
