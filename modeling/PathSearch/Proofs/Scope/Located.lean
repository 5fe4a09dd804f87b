import PathSearch.Proofs.Path.Normal
import PathSearch.Proofs.Scope.Residual

/-! Starting at the directory that the literal segments of a glob lead to keeps its meaning. -/

namespace PathSearch

open Glob

namespace Path

variable {path : Path} {names : List Text}

theorem namesOf_join_eq_filter {pieces : List Text} (whole : ∀ piece ∈ pieces, '/' ∉ piece) :
    namesOf (Text.join '/' pieces) = pieces.filter fun piece => IsName piece := by
  by_cases none : pieces = []
  · subst none
    decide
  · rw [namesOf, Text.split_join none whole]

theorem namesOf_join (named : ∀ name ∈ names, IsName name) : namesOf (Text.join '/' names) = names := by
  rw [namesOf_join_eq_filter fun name member => (named name member).2.1, List.filter_eq_self]
  intro name member
  exact decide_eq_true (named name member)

theorem namesOf_slash (text : Text) : namesOf ('/' :: text) = namesOf text := by
  have empty : ¬ IsName [] := fun named => named.1 rfl
  rw [namesOf, Text.split, if_pos rfl, List.filter_cons_of_neg (by simp [empty])]
  rfl

theorem head?_join_ne_of_whole {pieces : List Text} (some : ∀ piece ∈ pieces, piece ≠ [])
    (whole : ∀ piece ∈ pieces, '/' ∉ piece) : (Text.join '/' pieces).head? ≠ .some '/' :=
  head?_join_ne_slash (fun empty => some [] (List.mem_of_head? empty) rfl) whole

theorem head?_join_ne (named : ∀ name ∈ names, IsName name) :
    (Text.join '/' names).head? ≠ some '/' :=
  head?_join_ne_of_whole (fun name member => (named name member).1) fun name member => (named name member).2.1

section Anchor

variable {text : Text} (first : text.head? ≠ some '/')

include first

theorem anchor_ofText_of_head : Anchor.ofText text = .here := by
  unfold Anchor.ofText
  split
  · exact absurd rfl first
  · exact absurd rfl first
  · exact absurd rfl first
  · rfl

theorem anchor_ofText_slash : Anchor.ofText ('/' :: text) = .root := by
  unfold Anchor.ofText
  split
  · rename_i same
    exact absurd (by rw [(List.cons.inj same).2]; rfl) first
  · rename_i same
    exact absurd (by rw [(List.cons.inj same).2]; rfl) first
  · rfl
  · rename_i other
    exact absurd rfl (other text)

end Anchor

theorem anchor_ofText_join (named : ∀ name ∈ names, IsName name) :
    Anchor.ofText (Text.join '/' names) = .here := anchor_ofText_of_head (head?_join_ne named)

theorem anchor_ofText_slash_join (named : ∀ name ∈ names, IsName name) :
    Anchor.ofText ('/' :: Text.join '/' names) = .root := anchor_ofText_slash (head?_join_ne named)

end Path

theorem Glob.Matcher.acceptsText_congr {matcher : Matcher} {first second : Text}
    (same : subject first = subject second) : matcher.acceptsText first = matcher.acceptsText second := by
  cases matcher with
  | everything => rfl
  | compiled pattern forms => simp only [Matcher.acceptsText, same]

namespace LocatedGlob

/-- The path is the directory or lies below it, and the matcher accepts what leads there. -/
def Accepts (located : LocatedGlob) (path : Path) : Prop :=
  ∃ relative, path.relativeTo? located.base = some relative ∧ located.matcher.accepts relative = true

theorem accepts_iff {located : LocatedGlob} {path : Path}
    (ordinary : ∀ name ∈ path.names, IsOrdinary name) :
    located.Accepts path ↔
      path.anchor = located.base.anchor ∧ ∃ later, path.names = located.base.names ++ later ∧
        located.matcher.acceptsText (Text.join '/' later) = true := by
  have read : ∀ relative : Path, relative.anchor = .here →
      path.names = located.base.names ++ relative.names →
        located.matcher.accepts relative =
          located.matcher.acceptsText (Text.join '/' relative.names) := by
    intro relative here names
    have held : ∀ name ∈ relative.names, IsOrdinary name := fun name member =>
      ordinary name (by rw [names]; exact List.mem_append_right _ member)
    apply Matcher.acceptsText_congr
    rw [subject_text (by simp [here]) fun name member => (held name member).2.2, subject_join held]
  constructor
  · intro found
    obtain ⟨relative, below, accepted⟩ := found
    obtain ⟨anchors, here, names⟩ := Path.relativeTo?_eq_some below
    rw [read relative here names] at accepted
    exact ⟨anchors, relative.names, names, accepted⟩
  · intro found
    obtain ⟨anchors, later, names, accepted⟩ := found
    obtain ⟨relative, below, rfl⟩ := Path.exists_relativeTo? anchors names
    obtain ⟨-, here, -⟩ := Path.relativeTo?_eq_some below
    exact ⟨relative, below, by rwa [read relative here names]⟩

section Base

variable {current start : Path} {glob : Text}
  (named : ∀ segment ∈ literalSegments glob, IsName segment ∧ segment ≠ Path.up)

include named

theorem baseOf_of_absolute (absolute : isAbsoluteGlob glob = true) :
    (baseOf current start glob).anchor = .root ∧
      (baseOf current start glob).names = literalSegments glob := by
  have names := fun segment member => (named segment member).1
  let path := Path.ofText ('/' :: Text.join '/' (literalSegments glob))
  have anchor : path.anchor = .root := Path.anchor_ofText_slash_join names
  have parts : path.names = literalSegments glob :=
    (Path.namesOf_slash _).trans (Path.namesOf_join names)
  have normal : path.IsNormal := by
    refine ⟨by simp [Path.IsAbsolute, anchor], ?_⟩
    rw [parts]
    exact fun member => (named _ member).2 rfl
  have base : baseOf current start glob = path := by
    simp only [baseOf, if_pos absolute]
    exact Path.normalize_eq_self current normal
  rw [base]
  exact ⟨anchor, parts⟩

theorem baseOf_of_relative (normal : start.IsNormal) (relative : isAbsoluteGlob glob = false) :
    (baseOf current start glob).anchor = start.anchor ∧
      (baseOf current start glob).names = start.names ++ literalSegments glob := by
  have names := fun segment member => (named segment member).1
  have whole := Path.namesOf_join names
  simp only [baseOf, relative, Bool.false_eq_true, if_false]
  by_cases none : Text.join '/' (literalSegments glob) = []
  · rw [none] at whole
    rw [if_pos none, ← whole]
    exact ⟨rfl, (List.append_nil _).symm⟩
  · have free : ¬ (Path.ofText (Text.join '/' (literalSegments glob))).IsAbsolute := by
      simp [Path.IsAbsolute, Path.ofText, Path.anchor_ofText_join names]
    let path := start ++ Path.ofText (Text.join '/' (literalSegments glob))
    have anchor : path.anchor = start.anchor := by
      change (Path.append start _).anchor = _
      rw [Path.append, if_neg free]
    have parts : path.names = start.names ++ literalSegments glob := by
      change (Path.append start _).names = _
      rw [Path.append, if_neg free]
      exact congrArg (start.names ++ ·) whole
    have inside : path.IsNormal := by
      refine ⟨by rw [Path.IsAbsolute, anchor]; exact normal.1, ?_⟩
      rw [parts, List.mem_append, not_or]
      exact ⟨normal.2, fun member => (named _ member).2 rfl⟩
    have base : Path.normalize current path = path := Path.normalize_eq_self current inside
    rw [if_neg none, base]
    exact ⟨anchor, parts⟩

end Base

section Cut

variable {current start : Path} {glob : Text} {matcher rest : Matcher}

/-- When a glob is its literal segments and the residual, the residual compiles, and behind the literal
segments it accepts what the glob accepts. -/
theorem exists_matcher_of_cut
    (shape : trimmed glob = frontText (isAbsoluteGlob glob) (literalSegments glob) ++ residual glob)
    (trims : trimmed (residual glob) = residual glob) (nonempty : residual glob ≠ [])
    (compiled : Glob.compile glob = .ok matcher)
    (alike : isAbsoluteGlob glob = true ∨ literalSegments glob ≠ [] →
      ∀ inners, alternatives (residual glob) = .ok inners →
        ∀ inner ∈ inners, CutsAlike (isAbsoluteGlob glob) (literalSegments glob) inner) :
    ∃ rest, Glob.compile (residual glob) = .ok rest ∧ ∀ names, (∀ name ∈ names, IsOrdinary name) →
      ∀ text, subject text = Text.join '/' names →
        (matcher.acceptsText text = true ↔ ∃ later, names = literalSegments glob ++ later ∧
          rest.acceptsText (Text.join '/' later) = true) := by
  have literal : ∀ segment ∈ literalSegments glob, IsLiteral segment :=
    fun _ => isLiteral_of_mem_literalSegments
  by_cases front : isAbsoluteGlob glob = true ∨ literalSegments glob ≠ []
  · obtain ⟨rest, cut⟩ := exists_compile_residual shape trims literal compiled (alike front) nonempty
    refine ⟨rest, cut, fun names ordinary text read => ?_⟩
    exact acceptsText_iff_of_residual shape trims literal compiled (alike front) cut ordinary read
  · -- Without a front the residual is the glob itself.
    simp only [not_or, ne_eq, Decidable.not_not, Bool.not_eq_true] at front
    rw [front.1, front.2] at shape
    have whole : trimmed (residual glob) = trimmed glob := trims.trans shape.symm
    refine ⟨matcher, compile_of_trimmed_eq whole compiled, fun names ordinary text read => ?_⟩
    have same : subject text = subject (Text.join '/' names) := read.trans (subject_join ordinary).symm
    rw [Matcher.acceptsText_congr same, front.2]
    simp

theorem ofGlob_of_wild (wild : ∃ segment ∈ globSegments glob, isWildcardSegment segment = true) :
    ofGlob current start glob =
      (Glob.compile (residual glob)).map fun rest => ⟨baseOf current start glob, rest⟩ := by
  obtain ⟨segment, member, wild⟩ := wild
  have some : ¬ ((globSegments glob).all fun segment => !isWildcardSegment segment) = true := by
    intro all
    have plain := List.all_eq_true.mp all segment member
    simp [wild] at plain
  rw [ofGlob, if_neg some]

theorem ofGlob_eq (wild : ∃ segment ∈ globSegments glob, isWildcardSegment segment = true)
    (cut : Glob.compile (residual glob) = .ok rest) :
    ofGlob current start glob = .ok ⟨baseOf current start glob, rest⟩ := by
  rw [ofGlob_of_wild wild, cut]
  rfl

/-- The directory of the literal segments and the matcher of the residual accept what the glob accepts. -/
theorem accepts_iff_of_cut
    (named : ∀ segment ∈ literalSegments glob, IsName segment ∧ segment ≠ Path.up)
    (behind : ∀ names, (∀ name ∈ names, IsOrdinary name) →
      ∀ text, subject text = Text.join '/' names →
        (matcher.acceptsText text = true ↔ ∃ later, names = literalSegments glob ++ later ∧
          rest.acceptsText (Text.join '/' later) = true))
    (current : Path) (normal : start.IsNormal) {path : Path}
    (single : isAbsoluteGlob glob = true → path.anchor = .root)
    (inLine : ∀ name ∈ path.names, '\n' ∉ name ∧ '\\' ∉ name) :
    (⟨baseOf current start glob, rest⟩ : LocatedGlob).Accepts path ↔
      if isAbsoluteGlob glob then matcher.accepts path = true
      else (⟨start, matcher⟩ : LocatedGlob).Accepts path := by
  have ordinary : ∀ name ∈ path.names, IsOrdinary name := fun name member =>
    ⟨path.named name member, inLine name member⟩
  rw [accepts_iff ordinary]
  by_cases absolute : isAbsoluteGlob glob = true
  · obtain ⟨anchor, names⟩ := @baseOf_of_absolute current start glob named absolute
    have top := single absolute
    have read := subject_text (by simp [top]) fun name member => (ordinary name member).2.2
    rw [if_pos absolute, Matcher.accepts, behind path.names ordinary path.text read]
    simp only [anchor, names, top, true_and]
  · rw [Bool.not_eq_true] at absolute
    obtain ⟨anchor, names⟩ := @baseOf_of_relative current start glob named normal absolute
    rw [if_neg (by simp [absolute]), accepts_iff ordinary]
    simp only [anchor, names, List.append_assoc]
    refine and_congr_right fun _ => ?_
    constructor
    · intro found
      obtain ⟨later, shape, accepted⟩ := found
      have held : ∀ name ∈ literalSegments glob ++ later, IsOrdinary name := fun name member =>
        ordinary name (by rw [shape]; exact List.mem_append_right _ member)
      exact ⟨_, shape, (behind _ held _ (subject_join held)).mpr ⟨later, rfl, accepted⟩⟩
    · intro found
      obtain ⟨inner, shape, accepted⟩ := found
      have held : ∀ name ∈ inner, IsOrdinary name := fun name member =>
        ordinary name (by rw [shape]; exact List.mem_append_right _ member)
      obtain ⟨later, rfl, taken⟩ := (behind inner held _ (subject_join held)).mp accepted
      exact ⟨later, shape, taken⟩

end Cut

section Tidy

variable {current start : Path} {glob : Text} {matcher : Matcher} (tidy : IsTidy glob)
  (compiled : Glob.compile glob = .ok matcher)

include tidy compiled

theorem clean_of_residual
    (front : isAbsoluteGlob glob = true ∨ literalSegments glob ≠ []) :
    ∃ inners, alternatives (residual glob) = .ok inners ∧ ∀ inner ∈ inners,
      ∀ segment ∈ literalSegments glob ++ Text.split '/' inner,
        IsShown segment ∧ segment ≠ ['.'] ∧ segment ≠ Path.up := by
  have literal : ∀ segment ∈ literalSegments glob, IsLiteral segment :=
    fun _ => isLiteral_of_mem_literalSegments
  obtain ⟨-, -, globs, -, split, -, -⟩ := compile_eq_ok.mp compiled
  obtain ⟨_, inners, found, inner, same, -⟩ :=
    exists_alternatives_residual (tidy.shape split) literal compiled
  obtain rfl := Except.ok.inj (split.symm.trans found)
  refine ⟨inners, inner, fun part member segment held => ?_⟩
  rw [← namedSegments_frontText literal front] at held
  exact tidy.clean globs split _ ((same _).mpr ⟨part, member, rfl⟩) segment held

theorem isName_of_mem_literalSegments :
    ∀ segment ∈ literalSegments glob, IsName segment ∧ segment ≠ Path.up := by
  intro segment member
  obtain ⟨inners, split, clean⟩ := clean_of_residual tidy compiled (.inr (List.ne_nil_of_mem member))
  obtain ⟨inner, held⟩ := exists_alternative split
  obtain ⟨-, other, ascends⟩ := clean inner held segment (List.mem_append_left _ member)
  have literal : IsLiteral segment := isLiteral_of_mem_literalSegments member
  exact ⟨⟨literal.some, literal.clear, other⟩, ascends⟩

/-- The residual compiles, and behind the literal segments it accepts what the glob accepts. -/
theorem exists_matcher_of_residual :
    ∃ rest, Glob.compile (residual glob) = .ok rest ∧ ∀ names, (∀ name ∈ names, IsOrdinary name) →
      ∀ text, subject text = Text.join '/' names →
        (matcher.acceptsText text = true ↔ ∃ later, names = literalSegments glob ++ later ∧
          rest.acceptsText (Text.join '/' later) = true) := by
  obtain ⟨-, -, globs, -, split, -, -⟩ := compile_eq_ok.mp compiled
  refine exists_matcher_of_cut (tidy.shape split) (tidy.trimmed_residual split)
    (tidy.residual_ne_nil split) compiled ?_
  intro front others found part member
  obtain ⟨inners, inner, clean⟩ := clean_of_residual tidy compiled front
  obtain rfl := Except.ok.inj (inner.symm.trans found)
  exact cutsAlike_of_shown (fun _ => isLiteral_of_mem_literalSegments) fun segment held =>
    (clean part member segment (List.mem_append_right _ held)).1

theorem accepts_ofGlob_iff (current : Path) (normal : start.IsNormal) :
    ∃ located, ofGlob current start glob = .ok located ∧
      ∀ path : Path, (isAbsoluteGlob glob = true → path.anchor = .root) →
        (∀ name ∈ path.names, '\n' ∉ name ∧ '\\' ∉ name) →
          (located.Accepts path ↔
            if isAbsoluteGlob glob then matcher.accepts path = true
            else (⟨start, matcher⟩ : LocatedGlob).Accepts path) := by
  obtain ⟨rest, cut, behind⟩ := exists_matcher_of_residual tidy compiled
  have named := isName_of_mem_literalSegments tidy compiled
  exact ⟨_, ofGlob_eq tidy.wild cut, fun path => accepts_iff_of_cut named behind current normal⟩

end Tidy

theorem accepts_ofGlob_below :
    ∃ located, ofGlob .root ⟨.root, [['b']], by decide⟩ ['s', '/', '*'] = .ok located ∧
      located.Accepts ⟨.root, [['b'], ['s'], ['x']], by decide⟩ := by
  have tidy : IsTidy ['s', '/', '*'] := by
    refine ⟨⟨['*'], by decide, by decide⟩, by decide, ?_⟩
    intro globs split
    have alone : alternatives (trimmed ['s', '/', '*']) = .ok [['s', '/', '*']] := rfl
    obtain rfl := Except.ok.inj (alone.symm.trans split)
    decide
  have compiled : Glob.compile ['s', '/', '*'] = .ok (.compiled ['s', '/', '*']
      [.covering [.one (.only 's'), .one (.only '/'), .one .inName, .many .inName] .slashFinish]) :=
    eq_ok_of_toOption (by decide +kernel)
  have normal : Path.IsNormal ⟨.root, [['b']], by decide⟩ := ⟨by decide, by decide⟩
  obtain ⟨located, found, accepts⟩ := accepts_ofGlob_iff tidy compiled .root normal
  refine ⟨located, found, (accepts _ (by decide) (by decide)).mpr ?_⟩
  exact ⟨⟨.here, [['s'], ['x']], by decide⟩, rfl, by decide +kernel⟩

/-- A glob with an alternative that ends in a blank segment. -/
def blankEnded : Text := ['a', '/', '*', '*', '/', '\x7b', ' ', ',', 'c', '\x7d']

/-- A path with two leading slashes is below no directory with one. And an alternative loses the blanks at
its end, which leaves another meaning with literal segments in front than without. -/
theorem not_accepts_ofGlob_iff :
    (∃ matcher located, Glob.compile ['/', '*', '*'] = .ok matcher ∧
      ofGlob .root .root ['/', '*', '*'] = .ok located ∧
        matcher.accepts ⟨.doubleRoot, [['a']], by decide⟩ = true ∧
          ¬ located.Accepts ⟨.doubleRoot, [['a']], by decide⟩) ∧
    (alternatives blankEnded = .ok [['a', '/', '*', '*', '/', ' '], ['a', '/', '*', '*', '/', 'c']] ∧
      (∀ segment ∈ Text.split '/' blankEnded, segment.strip = segment) ∧
        ∃ matcher located, Glob.compile blankEnded = .ok matcher ∧
          ofGlob .root ⟨.root, [['b']], by decide⟩ blankEnded = .ok located ∧
            (⟨⟨.root, [['b']], by decide⟩, matcher⟩ : LocatedGlob).Accepts
                ⟨.root, [['b'], ['a'], ['x']], by decide⟩ ∧
              ¬ located.Accepts ⟨.root, [['b'], ['a'], ['x']], by decide⟩) := by
  constructor
  · refine ⟨.compiled ['/', '*', '*'] [.visible], ⟨.root, .compiled ['*', '*'] [.visible]⟩,
      eq_ok_of_toOption (by decide +kernel), eq_ok_of_toOption (by decide +kernel),
      by decide +kernel, ?_⟩
    intro found
    obtain ⟨relative, below, -⟩ := found
    cases below
  · refine ⟨rfl, by decide, .compiled blankEnded
        [.covering [.one (.only 'a'), .one (.only '/')] .anything,
          .covering [.one (.only 'a'), .between, .one (.only '/'), .one (.only 'c')] .finish],
      ⟨⟨.root, [['b'], ['a']], by decide⟩, .compiled (blankEnded.drop 2)
        [.nested, .covering [.above, .one (.only 'c')] .finish]⟩,
      eq_ok_of_toOption (by decide +kernel), eq_ok_of_toOption (by decide +kernel), ?_, ?_⟩
    · exact ⟨⟨.here, [['a'], ['x']], by decide⟩, rfl, by decide +kernel⟩
    · intro found
      obtain ⟨relative, below, accepted⟩ := found
      cases below
      revert accepted
      decide +kernel

end LocatedGlob

end PathSearch
