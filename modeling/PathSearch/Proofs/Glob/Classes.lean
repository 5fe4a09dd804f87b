import PathSearch.Glob.Form
import PathSearch.Proofs.Text.Split

/-! The classes of a text. A class that is closed ends at the same place whatever stands behind it, so a
text that is cut outside of its classes keeps them all, each on its side of the cut. -/

namespace PathSearch.Glob

/-- How the inside of a class starts: a closing bracket does not close the class there. -/
inductive IsLead : Text → Prop where
  | unmarked {first : Char} (unmarked : isNegation first = false) : IsLead [first]
  | marked {mark first : Char} (marked : isNegation mark = true) : IsLead [mark, first]

/-- What brackets can enclose. -/
def IsClassText (inner : Text) : Prop := ∃ lead rest, IsLead lead ∧ ']' ∉ rest ∧ inner = lead ++ rest

theorem IsLead.enclosed?_append {lead : Text} (leads : IsLead lead) (text : Text) :
    enclosed? (lead ++ text) =
      (Text.splitFirst? ']' text).map fun (inner, beyond) => (lead ++ inner, beyond) := by
  cases leads with
  | @unmarked first unmarked =>
      by_cases close : first = ']'
      · subst close
        simp [enclosed?, takeIf, unmarked]
      · simp [enclosed?, takeIf, unmarked, close, Text.splitFirst?, Option.map_map, Function.comp_def]
  | @marked mark first marked =>
      by_cases close : first = ']'
      · subst close
        simp [enclosed?, takeIf, marked]
      · simp [enclosed?, takeIf, marked, close, Text.splitFirst?, Option.map_map, Function.comp_def]

theorem exists_lead_of_enclosed? {text inner beyond : Text}
    (found : enclosed? text = some (inner, beyond)) : ∃ lead rest, IsLead lead ∧ text = lead ++ rest := by
  rcases text with _ | ⟨mark, _ | ⟨first, rest⟩⟩
  · simp [enclosed?, takeIf, Text.splitFirst?] at found
  · cases marked : isNegation mark with
    | false => exact ⟨[mark], [], .unmarked marked, rfl⟩
    | true => simp [enclosed?, takeIf, marked, Text.splitFirst?] at found
  · cases marked : isNegation mark with
    | false => exact ⟨[mark], first :: rest, .unmarked marked, rfl⟩
    | true => exact ⟨[mark, first], rest, .marked marked, rfl⟩

/-- Which class an opening bracket starts depends on the text up to its closing bracket, and on nothing
behind that. -/
theorem enclosed?_eq_some_iff {text inner beyond : Text} :
    enclosed? text = some (inner, beyond) ↔ IsClassText inner ∧ text = inner ++ ']' :: beyond := by
  constructor
  · intro found
    obtain ⟨lead, rest, leads, rfl⟩ := exists_lead_of_enclosed? found
    rw [leads.enclosed?_append, Option.map_eq_some_iff] at found
    obtain ⟨⟨before, after⟩, split, shape⟩ := found
    cases shape
    obtain ⟨rfl, absent⟩ := Text.splitFirst?_eq_some_iff.mp split
    exact ⟨⟨lead, before, leads, absent, rfl⟩, by simp⟩
  · intro found
    obtain ⟨⟨lead, rest, leads, absent, rfl⟩, rfl⟩ := found
    have split := @Text.splitFirst?_eq_some_iff ']' (rest ++ ']' :: beyond) rest beyond
    rw [List.append_assoc, leads.enclosed?_append, split.mpr ⟨rfl, absent⟩]
    rfl

/-- The texts that the closed classes of a text enclose, from left to right. -/
def classTexts : Text → List Text
  | [] => []
  | character :: rest =>
      if character = '[' then
        match found : enclosed? rest with
        | none => classTexts rest
        | some (inner, beyond) =>
            have _shorter := enclosed?_length found
            inner :: classTexts beyond
      else classTexts rest
termination_by text => text.length
decreasing_by all_goals grind

section ClassTexts

variable {character : Char} {inner rest : Text}

theorem classTexts_cons (other : character ≠ '[') : classTexts (character :: rest) = classTexts rest := by
  rw [classTexts, if_neg other]

theorem classTexts_unclosed (unclosed : enclosed? rest = none) :
    classTexts ('[' :: rest) = classTexts rest := by
  rw [classTexts, if_pos rfl]
  split
  · rfl
  · simp_all

theorem classTexts_enclosed {beyond : Text} (found : enclosed? rest = some (inner, beyond)) :
    classTexts ('[' :: rest) = inner :: classTexts beyond := by
  rw [classTexts, if_pos rfl]
  split
  · simp_all
  · simp_all

theorem classTexts_eq_nil (closeless : ']' ∉ rest) : classTexts rest = [] := by
  induction rest with
  | nil => rw [classTexts]
  | cons character rest ih =>
      simp only [List.mem_cons, not_or] at closeless
      by_cases bracket : character = '['
      · subst bracket
        rw [classTexts_unclosed, ih closeless.2]
        rw [Option.eq_none_iff_forall_ne_some]
        intro found same
        exact closeless.2 (by simp [eq_of_enclosed? same])
      · rw [classTexts_cons bracket, ih closeless.2]

/-- Without a closing bracket nothing that follows a text closes a class of it. -/
theorem enclosed?_append_eq_none {tail : Text} (closeless : ']' ∉ tail) (unclosed : enclosed? rest = none) :
    enclosed? (rest ++ tail) = none := by
  rw [Option.eq_none_iff_forall_ne_some] at unclosed ⊢
  intro found same
  obtain ⟨closed, shape⟩ := enclosed?_eq_some_iff.mp same
  rcases List.append_eq_append_iff.mp shape with ⟨more, -, later⟩ | ⟨more, rfl, later⟩
  · exact closeless (by simp [later])
  · cases more with
    | nil =>
        rw [List.nil_append] at later
        exact closeless (later ▸ List.mem_cons_self ..)
    | cons close more =>
        obtain ⟨rfl, -⟩ := List.cons.inj later
        exact unclosed _ (enclosed?_eq_some_iff.mpr ⟨closed, rfl⟩)

theorem enclosed?_append_eq_some {beyond : Text} (found : enclosed? rest = some (inner, beyond))
    (tail : Text) : enclosed? (rest ++ tail) = some (inner, beyond ++ tail) := by
  obtain ⟨closed, rfl⟩ := enclosed?_eq_some_iff.mp found
  exact enclosed?_eq_some_iff.mpr ⟨closed, by simp⟩

theorem classTexts_append {tail : Text} (closeless : ']' ∉ tail) (text : Text) :
    classTexts (text ++ tail) = classTexts text := by
  fun_induction classTexts text with
  | case1 => rw [List.nil_append, classTexts_eq_nil closeless]
  | case2 rest unclosed ih =>
      rw [List.cons_append, classTexts_unclosed (enclosed?_append_eq_none closeless unclosed), ih]
  | case3 rest inner beyond found _ ih =>
      rw [List.cons_append, classTexts_enclosed (enclosed?_append_eq_some found tail), ih]
  | case4 character rest other ih => rw [List.cons_append, classTexts_cons other, ih]

end ClassTexts

/-- A segment has no pieces only because of one of its classes. -/
theorem segmentPieces?_eq_none_iff {segment : Text} :
    segmentPieces? segment = none ↔ ∃ inner ∈ classTexts segment, CharClass.read? inner = none := by
  fun_induction segmentPieces? segment with
  | case1 => simp [classTexts]
  | case2 rest ih => simp [classTexts, ih]
  | case3 rest _ ih => simp [classTexts, ih]
  | case4 rest unclosed _ _ ih => rw [classTexts_unclosed unclosed, Option.map_eq_none_iff, ih]
  | case5 rest inner beyond found _ charClass pieces later read _ _ ih =>
      rw [later] at ih
      simpa [classTexts_enclosed found, read] using ih
  | case6 rest inner beyond found _ apart _ _ ih =>
      simp only [classTexts_enclosed found, List.mem_cons, exists_eq_or_imp, ← ih, true_iff]
      cases read : CharClass.read? inner with
      | none => exact .inl rfl
      | some charClass =>
          refine .inr (Option.eq_none_iff_forall_ne_some.mpr fun pieces later => ?_)
          exact apart charClass pieces read later
  | case7 character rest _ _ other ih => rw [classTexts_cons other, Option.map_eq_none_iff, ih]

/-- A text whose opening brackets are all closed, and what they enclose. -/
inductive Classed : Text → List Text → Prop where
  | done : Classed [] []
  | plain {character : Char} {rest : Text} {classes : List Text} (other : character ≠ '[')
      (later : Classed rest classes) : Classed (character :: rest) classes
  | enclosing {inner rest : Text} {classes : List Text} (closed : IsClassText inner)
      (later : Classed rest classes) : Classed ('[' :: (inner ++ ']' :: rest)) (inner :: classes)

namespace Classed

variable {text first second part : Text} {classes : List Text}

theorem classTexts_eq (classed : Classed text classes) : classTexts text = classes := by
  induction classed with
  | done => rw [classTexts]
  | plain other later ih => rw [classTexts_cons other, ih]
  | enclosing closed later ih =>
      rw [classTexts_enclosed (enclosed?_eq_some_iff.mpr ⟨closed, rfl⟩), ih]

theorem append {some more : List Text} (one : Classed first some) (other : Classed second more) :
    Classed (first ++ second) (some ++ more) := by
  induction one with
  | done => exact other
  | plain apart later ih => exact .plain apart ih
  | enclosing closed later ih =>
      rw [List.cons_append, List.append_assoc]
      exact .enclosing closed ih

theorem of_unclassed (unclassed : '[' ∉ text) : Classed text [] := by
  induction text with
  | nil => exact .done
  | cons character rest ih =>
      simp only [List.mem_cons, not_or] at unclassed
      exact .plain (Ne.symm unclassed.1) (ih unclassed.2)

theorem of_append_unclassed (unclassed : '[' ∉ first) (classed : Classed (first ++ second) classes) :
    Classed second classes := by
  induction first with
  | nil => exact classed
  | cons character first ih =>
      simp only [List.mem_cons, not_or] at unclassed
      rw [List.cons_append] at classed
      generalize first ++ second = rest at classed ih
      cases classed with
      | plain other later => exact ih unclassed.2 later
      | enclosing => exact absurd rfl unclassed.1

omit text classes in
/-- Without a closing bracket of its own, what is not part of a class lies in front of it or behind it. -/
theorem exists_of_outside {inner rest : Text} (nonempty : part ≠ []) (unclosed : ']' ∉ part)
    (outside : ¬ part <:+: inner) (shape : first ++ (part ++ second) = inner ++ ']' :: rest) :
    ∃ before, first = inner ++ ']' :: before ∧ before ++ (part ++ second) = rest := by
  rcases List.append_eq_append_iff.mp shape with ⟨before, rfl, later⟩ | ⟨before, rfl, later⟩
  · rcases List.append_eq_append_iff.mp later with ⟨after, rfl, -⟩ | ⟨after, rfl, last⟩
    · exact absurd ⟨first, after, by simp⟩ outside
    · cases after with
      | nil => exact absurd ⟨first, [], by simp⟩ outside
      | cons close after =>
          obtain ⟨rfl, -⟩ := List.cons.inj last
          simp at unclosed
  · cases before with
    | nil =>
        obtain ⟨start, part, rfl⟩ := List.exists_cons_of_ne_nil nonempty
        obtain ⟨rfl, -⟩ := List.cons.inj later
        simp at unclosed
    | cons close before =>
        obtain ⟨rfl, beyond⟩ := List.cons.inj later
        exact ⟨before, rfl, beyond.symm⟩

/-- A cut at a text that is part of no class leaves the classes of both sides closed. -/
theorem cut (nonempty : part ≠ []) (unopened : '[' ∉ part) (unclosed : ']' ∉ part)
    (absent : ∀ inner ∈ classes, ¬ part <:+: inner) (classed : Classed (first ++ (part ++ second)) classes) :
    ∃ some more, Classed first some ∧ Classed second more ∧ classes = some ++ more := by
  generalize shape : first ++ (part ++ second) = text at classed
  induction classed generalizing first with
  | done => simp [nonempty] at shape
  | @plain character rest classes other later ih =>
      cases first with
      | nil =>
          have whole : Classed (part ++ second) classes := by
            rw [List.nil_append] at shape
            exact shape ▸ .plain other later
          exact ⟨[], classes, .done, of_append_unclassed unopened whole, rfl⟩
      | cons start first =>
          obtain ⟨rfl, inside⟩ := List.cons.inj shape
          obtain ⟨some, more, one, two, rfl⟩ := ih absent inside
          exact ⟨some, more, .plain other one, two, rfl⟩
  | @enclosing inner rest classes closed later ih =>
      cases first with
      | nil =>
          obtain ⟨start, part, rfl⟩ := List.exists_cons_of_ne_nil nonempty
          exact absurd (List.cons.inj shape).1 fun same => unopened (same ▸ List.mem_cons_self ..)
      | cons start first =>
          obtain ⟨rfl, inside⟩ := List.cons.inj shape
          obtain ⟨before, rfl, beyond⟩ :=
            exists_of_outside nonempty unclosed (absent inner (List.mem_cons_self ..)) inside
          obtain ⟨some, more, one, two, rfl⟩ :=
            ih (fun other held => absent other (List.mem_cons_of_mem _ held)) beyond
          exact ⟨inner :: some, more, .enclosing closed one, two, rfl⟩

end Classed

/-- The check of a whole text goes through its classes. -/
theorem classed_of_checkClasses {text : Text} (checked : checkClasses text = .ok ()) :
    Classed text (classTexts text) ∧
      ∀ inner ∈ classTexts text, backwards? (inner.dropWhile isNegation) = none := by
  fun_induction checkClasses text with
  | case1 => exact ⟨by rw [classTexts]; exact .done, by simp [classTexts]⟩
  | case2 => simp at checked
  | case3 => simp at checked
  | case4 rest inner beyond found _ forward ih =>
      obtain ⟨classed, others⟩ := ih checked
      obtain ⟨closed, rfl⟩ := enclosed?_eq_some_iff.mp found
      rw [classTexts_enclosed found]
      exact ⟨.enclosing closed classed, List.forall_mem_cons.mpr ⟨forward, others⟩⟩
  | case5 character rest other ih =>
      obtain ⟨classed, others⟩ := ih checked
      rw [classTexts_cons other]
      exact ⟨.plain other classed, others⟩

section Members

variable {first : Char} {members inner : Text}

theorem backwards?_of_cons (forward : backwards? (first :: members) = none) :
    backwards? members = none := by
  by_cases range : ∃ last rest, members = '-' :: last :: rest
  · obtain ⟨last, rest, rfl⟩ := range
    rw [backwards?] at forward
    by_cases back : last < first
    · simp [back] at forward
    · rwa [if_neg back] at forward
  · rwa [backwards?] at forward
    exact fun last rest shape => range ⟨last, rest, shape⟩

/-- Members without a range that runs backwards, whichever dash is taken for one, can be read. -/
theorem exists_spans? (forward : backwards? members = none) : ∃ spans, spans? members = some spans := by
  fun_induction spans? members with
  | case1 => exact ⟨[], rfl⟩
  | case2 first last rest back => simp [backwards?, back] at forward
  | case3 first last rest ordered ih =>
      have later := backwards?_of_cons (backwards?_of_cons (backwards?_of_cons forward))
      obtain ⟨spans, read⟩ := ih later
      exact ⟨_, by rw [read]; rfl⟩
  | case4 character rest _ ih =>
      obtain ⟨spans, read⟩ := ih (backwards?_of_cons forward)
      exact ⟨_, by rw [read]; rfl⟩

/-- Leaving out the leading negation marks is only right for a class when there is at most one of them. -/
theorem exists_read? (single : (inner.takeWhile isNegation).length ≤ 1)
    (forward : backwards? (inner.dropWhile isNegation) = none) :
    ∃ charClass, CharClass.read? inner = some charClass := by
  cases inner with
  | nil => exact ⟨_, rfl⟩
  | cons mark members =>
      cases marked : isNegation mark with
      | false =>
          rw [List.dropWhile_cons_of_neg (by simp [marked])] at forward
          obtain ⟨spans, read⟩ := exists_spans? forward
          exact ⟨_, by simp [CharClass.read?, marked, read]; rfl⟩
      | true =>
          rw [List.dropWhile_cons_of_pos marked] at forward
          rw [List.takeWhile_cons_of_pos marked, List.length_cons] at single
          have none : members.takeWhile isNegation = [] := List.length_eq_zero_iff.mp (by omega)
          have all := @List.takeWhile_append_dropWhile _ isNegation members
          rw [none, List.nil_append] at all
          rw [all] at forward
          obtain ⟨spans, read⟩ := exists_spans? forward
          exact ⟨_, by simp [CharClass.read?, marked, read]; rfl⟩

end Members

end PathSearch.Glob
