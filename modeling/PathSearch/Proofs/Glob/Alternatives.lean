import PathSearch.Proofs.Glob.Ends

/-!
A pattern with braces and its alternatives, each compiled by itself. A pattern of its own is stripped and
refused when nothing is left; an alternative is neither. So the braces mean their alternatives as long as
stripping would make no difference to these.
-/

namespace PathSearch.Glob

section Alternative

variable {text : Text} {globs : List Text} (split : alternatives text = .ok globs)

include split

theorem mem_of_mem_alternative {glob : Text} (chosen : glob ∈ globs) {character : Char}
    (member : character ∈ glob) : character ∈ text ∧ character ≠ '\x7b' ∧ character ≠ '\x7d' := by
  obtain ⟨elements, reads, rfl⟩ := alternatives_eq_ok.mp split
  exact Braced.mem_of_mem_choice reads (List.mem_eraseDups.mp chosen) member

end Alternative

/-- A glob without braces and backslashes. -/
structure IsUnbraced (glob : Text) : Prop where
  opened : '\x7b' ∉ glob
  closed : '\x7d' ∉ glob
  unslashed : '\\' ∉ glob

theorem isUnbraced_of_mem_alternatives {pattern : Text} {globs : List Text}
    (split : alternatives (trimmed pattern) = .ok globs) {glob : Text} (chosen : glob ∈ globs) :
    IsUnbraced glob where
  opened inside := (mem_of_mem_alternative split chosen inside).2.1 rfl
  closed inside := (mem_of_mem_alternative split chosen inside).2.2 rfl
  unslashed inside := back_notMem_slashed (mem_of_mem_alternative split chosen inside).1

theorem IsUnbraced.strip {glob : Text} (unbraced : IsUnbraced glob) : IsUnbraced glob.strip where
  opened inside := unbraced.opened (Text.strip_subset inside)
  closed inside := unbraced.closed (Text.strip_subset inside)
  unslashed inside := unbraced.unslashed (Text.strip_subset inside)

/-- Compiling a pattern comes down to its alternatives. -/
theorem exists_compile_iff {pattern : Text} {globs : List Text}
    (split : alternatives (trimmed pattern) = .ok globs) :
    (∃ matcher, compile pattern = .ok matcher) ↔
      trimmed pattern ≠ [] ∧ groupExpansions (trimmed pattern) ≤ expansionLimit ∧
        ∀ glob ∈ globs, ∃ forms, formsOf pattern glob = .ok forms := by
  rw [← exists_mapM_iff]
  constructor
  · intro found
    obtain ⟨matcher, compiled⟩ := found
    obtain ⟨nonempty, few, _, forms, same, mapped, -⟩ := compile_eq_ok.mp compiled
    obtain rfl := Except.ok.inj (split.symm.trans same)
    exact ⟨nonempty, few, forms, mapped⟩
  · intro found
    obtain ⟨nonempty, few, forms, mapped⟩ := found
    exact ⟨_, compile_eq_ok.mpr ⟨nonempty, few, globs, forms, split, mapped, rfl⟩⟩

section Unbraced

variable {glob : Text} (unbraced : IsUnbraced glob)

include unbraced

theorem IsUnbraced.trimmed_eq : trimmed glob = glob.strip := slashed_eq_self unbraced.strip.unslashed

theorem IsUnbraced.alternatives_trimmed : alternatives (trimmed glob) = .ok [glob.strip] := by
  rw [unbraced.trimmed_eq, alternatives_unbraced unbraced.strip.opened unbraced.strip.closed]

theorem IsUnbraced.exists_compile_iff :
    (∃ matcher, compile glob = .ok matcher) ↔
      glob.strip ≠ [] ∧ ∃ forms, formsOf glob glob.strip = .ok forms := by
  have few : groupExpansions glob.strip ≤ expansionLimit := by
    simp [groupExpansions_unbraced unbraced.strip.opened unbraced.strip.closed]
  rw [Glob.exists_compile_iff unbraced.alternatives_trimmed, unbraced.trimmed_eq,
    List.forall_mem_singleton, and_iff_right few]

theorem IsUnbraced.acceptsText_iff {matcher : Matcher} (compiled : compile glob = .ok matcher) {text : Text} :
    matcher.acceptsText text = true ↔
      ∃ one ∈ expandStars glob.strip, Fits (formOf? one) (subject text) := by
  rw [acceptsText_iff_of_compile compiled unbraced.alternatives_trimmed]
  simp only [List.mem_singleton, exists_eq_left]

end Unbraced

/-- As an alternative the glob means what it means as a pattern: not all of it is blank, it does not start
with a blank, and if it ends in one, its stars are taken apart as without. -/
structure StandsAlone (glob : Text) : Prop where
  shown : glob.strip ≠ []
  led : glob.stripRight = glob.strip
  ended : glob.strip = glob ∨ IsExtensible (lastSegment glob.strip)

namespace StandsAlone

variable {pattern other glob : Text} (alone : StandsAlone glob)

include alone

theorem exists_tail :
    ∃ tail, glob = glob.strip ++ tail ∧ ∀ character ∈ tail, Text.isBlank character = true := by
  obtain ⟨tail, whole, blank⟩ := Text.exists_dropped Text.isBlank glob
  exact ⟨tail, by rw [← alone.led]; exact whole, blank⟩

theorem exists_formsOf_iff :
    (∃ forms, formsOf pattern glob = .ok forms) ↔ ∃ forms, formsOf other glob.strip = .ok forms := by
  obtain ⟨tail, shape, blank⟩ := alone.exists_tail
  rcases alone.ended with same | extensible
  · rw [same, Glob.exists_formsOf_iff, Glob.exists_formsOf_iff]
  · have stripped := @exists_formsOf_append_iff pattern other glob.strip tail blank extensible
    rwa [← shape] at stripped

theorem exists_expanded_iff {form : Form} :
    (∃ one ∈ expandStars glob, formOf? one = some form) ↔
      ∃ one ∈ expandStars glob.strip, formOf? one = some form := by
  obtain ⟨tail, shape, blank⟩ := alone.exists_tail
  rcases alone.ended with same | extensible
  · rw [same]
  · have stripped := @exists_expanded_append_iff glob.strip tail blank extensible form
    rwa [← shape] at stripped

theorem fits_iff {text : Text} :
    (∃ one ∈ expandStars glob, Fits (formOf? one) text) ↔
      ∃ one ∈ expandStars glob.strip, Fits (formOf? one) text := by
  have swap : ∀ globs : List Text, (∃ one ∈ globs, Fits (formOf? one) text) ↔
      ∃ form, (∃ one ∈ globs, formOf? one = some form) ∧ form.accepts text = true := by
    intro globs
    simp only [Fits]
    grind
  simp only [swap, alone.exists_expanded_iff]

end StandsAlone

/-- A pattern means its alternatives: it compiles when each of them does, and accepts what some of them
accepts. -/
structure MeansAlternatives (pattern : Text) (globs : List Text) : Prop where
  compiles : (∃ matcher, compile pattern = .ok matcher) ↔
    ∀ glob ∈ globs, ∃ matcher, compile glob = .ok matcher
  accepts : ∀ matcher, compile pattern = .ok matcher → ∀ text,
    (matcher.acceptsText text = true ↔
      ∃ glob ∈ globs, ∃ one, compile glob = .ok one ∧ one.acceptsText text = true)

theorem not_compile_of_blank {glob : Text} (blank : glob.strip = []) :
    ¬ ∃ matcher, compile glob = .ok matcher := by
  intro found
  obtain ⟨matcher, compiled⟩ := found
  obtain ⟨nonempty, -⟩ := compile_eq_ok.mp compiled
  exact nonempty (by rw [trimmed, blank]; rfl)

section Pattern

variable {pattern : Text} {globs : List Text} (split : alternatives (trimmed pattern) = .ok globs)

include split

theorem nonempty_of_standsAlone (alone : ∀ glob ∈ globs, StandsAlone glob) : trimmed pattern ≠ [] := by
  obtain ⟨glob, chosen⟩ := exists_alternative split
  obtain ⟨character, rest, shape⟩ := List.exists_cons_of_ne_nil (alone glob chosen).shown
  have member : character ∈ glob := Text.strip_subset (shape ▸ List.mem_cons_self ..)
  exact List.ne_nil_of_mem (mem_of_mem_alternative split chosen member).1

theorem meansAlternatives_of_standsAlone (few : groupExpansions (trimmed pattern) ≤ expansionLimit)
    (alone : ∀ glob ∈ globs, StandsAlone glob) : MeansAlternatives pattern globs := by
  have each : ∀ glob ∈ globs, ((∃ matcher, compile glob = .ok matcher) ↔
      ∃ forms, formsOf pattern glob = .ok forms) := by
    intro glob chosen
    have unbraced := isUnbraced_of_mem_alternatives split chosen
    rw [unbraced.exists_compile_iff, and_iff_right (alone glob chosen).shown,
      (alone glob chosen).exists_formsOf_iff]
  have compiles : (∃ matcher, compile pattern = .ok matcher) ↔
      ∀ glob ∈ globs, ∃ matcher, compile glob = .ok matcher := by
    rw [exists_compile_iff split, and_iff_right (nonempty_of_standsAlone split alone), and_iff_right few]
    exact forall₂_congr fun glob chosen => (each glob chosen).symm
  refine ⟨compiles, fun matcher compiled text => ?_⟩
  rw [acceptsText_iff_of_compile compiled split]
  refine exists_congr fun glob => and_congr_right fun chosen => ?_
  have unbraced := isUnbraced_of_mem_alternatives split chosen
  obtain ⟨one, made⟩ := compiles.mp ⟨matcher, compiled⟩ glob chosen
  rw [(alone glob chosen).fits_iff, ← unbraced.acceptsText_iff made]
  simp [made]

/-- A blank alternative is no pattern by itself, but as an alternative it lets everything through. -/
theorem acceptsText_of_blank {glob : Text} (chosen : glob ∈ globs) (blank : glob.strip = [])
    {matcher : Matcher} (compiled : compile pattern = .ok matcher) {text : Text}
    (shown : ∃ character ∈ subject text, character ≠ '\n') : matcher.acceptsText text = true := by
  have everything : ∃ one ∈ expandStars [], formOf? one = some .visible :=
    ⟨[], by decide +kernel, by decide +kernel⟩
  have blanks := Text.isBlank_of_strip_eq_nil blank
  obtain ⟨one, expanded, made⟩ := (exists_expanded_append_iff blanks (by decide)).mpr everything
  rw [acceptsText_iff_of_compile compiled split]
  refine ⟨glob, chosen, one, expanded, .visible, made, ?_⟩
  simpa [Form.accepts] using shown

/-- Braces mean alternatives, as long as each alternative stands alone. A blank alternative lets everything
through where the pattern would have to be refused, and too many groups have no meaning. -/
theorem meansAlternatives :
    (groupExpansions (trimmed pattern) ≤ expansionLimit → (∀ glob ∈ globs, StandsAlone glob) →
      MeansAlternatives pattern globs) ∧
    (expansionLimit < groupExpansions (trimmed pattern) →
      (∀ glob ∈ globs, ∃ matcher, compile glob = .ok matcher) → ¬ MeansAlternatives pattern globs) ∧
    ∀ matcher, compile pattern = .ok matcher → ∀ glob ∈ globs, glob.strip = [] →
      ¬ MeansAlternatives pattern globs ∧
        ∀ text, (∃ character ∈ subject text, character ≠ '\n') → matcher.acceptsText text = true := by
  refine ⟨meansAlternatives_of_standsAlone split, ?_, ?_⟩
  · intro many all means
    obtain ⟨-, few, -⟩ := (exists_compile_iff split).mp (means.compiles.mpr all)
    exact Nat.not_le_of_lt many few
  · intro matcher compiled glob chosen blank
    refine ⟨fun means => ?_, fun text => acceptsText_of_blank split chosen blank compiled⟩
    exact not_compile_of_blank blank (means.compiles.mp ⟨matcher, compiled⟩ glob chosen)

end Pattern

theorem meansAlternatives_blank_behind :
    MeansAlternatives ['a', '\x7b', 'b', ' ', ',', 'c', '\x7d'] [['a', 'b', ' '], ['a', 'c']] := by
  have split : alternatives (trimmed ['a', '\x7b', 'b', ' ', ',', 'c', '\x7d']) =
      .ok [['a', 'b', ' '], ['a', 'c']] := eq_ok_of_toOption (by decide +kernel)
  refine (meansAlternatives split).1 (by decide +kernel) ?_
  rw [List.forall_mem_cons, List.forall_mem_singleton]
  exact ⟨⟨by decide, by decide, .inr (by decide)⟩, ⟨by decide, by decide, .inl (by decide)⟩⟩

theorem not_meansAlternatives_of_refused {pattern glob text : Text} {globs : List Text}
    (chosen : glob ∈ globs)
    (refused : (compile pattern).toOption.map (·.acceptsText text) = some false)
    (accepted : (compile glob).toOption.map (·.acceptsText text) = some true) :
    ¬ MeansAlternatives pattern globs := by
  intro means
  obtain ⟨matcher, compiled, refused⟩ := Option.map_eq_some_iff.mp refused
  obtain ⟨one, made, accepted⟩ := Option.map_eq_some_iff.mp accepted
  have whole := means.accepts matcher (eq_ok_of_toOption compiled) text
  rw [whole.mpr ⟨glob, chosen, one, eq_ok_of_toOption made, accepted⟩] at refused
  cases refused

/-- The braces mean something else than the alternatives they spell. -/
def Misreads (pattern : Text) (globs : List Text) : Prop :=
  alternatives (trimmed pattern) = .ok globs ∧ ¬ MeansAlternatives pattern globs

/-- An empty alternative, one that starts with a blank, and stars with a blank behind them. -/
theorem not_meansAlternatives :
    Misreads ['\x7b', 'a', ',', '\x7d'] [['a'], []] ∧
      Misreads ['\x7b', ' ', 'a', ',', 'b', '\x7d'] [[' ', 'a'], ['b']] ∧
        Misreads ['\x7b', '*', '*', ' ', ',', 'b', '\x7d'] [['*', '*', ' '], ['b']] := by
  refine ⟨⟨eq_ok_of_toOption (by decide +kernel), ?_⟩, ⟨eq_ok_of_toOption (by decide +kernel), ?_⟩,
    eq_ok_of_toOption (by decide +kernel), ?_⟩
  · have compiled : compile ['\x7b', 'a', ',', '\x7d'] =
        .ok (.compiled ['\x7b', 'a', ',', '\x7d'] [.covering [.one (.only 'a')] .finish, .visible]) :=
      eq_ok_of_toOption (by decide +kernel)
    intro means
    have all := means.compiles.mp ⟨_, compiled⟩
    exact not_compile_of_blank rfl (all [] (by simp))
  · exact @not_meansAlternatives_of_refused _ [' ', 'a'] ['a'] _ (by decide) (by decide +kernel)
      (by decide +kernel)
  · exact @not_meansAlternatives_of_refused _ ['*', '*', ' '] ['/', '/', 'x'] _ (by decide)
      (by decide +kernel) (by decide +kernel)

end PathSearch.Glob
