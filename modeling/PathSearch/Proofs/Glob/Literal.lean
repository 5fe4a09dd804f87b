import PathSearch.Glob.Matcher
import PathSearch.Proofs.Glob.Reader
import PathSearch.Proofs.Results

/-! Literal text in a pattern goes through the braces and the check of the classes as it is. -/

namespace PathSearch.Glob

namespace Braced

/-- Outside of all groups, text without braces is read as its characters. -/
theorem readFrom_append {literal : Text} (opened : '\x7b' ∉ literal) (closed : '\x7d' ∉ literal)
    (current : List Braced) (text : Text) :
    readFrom [] current (literal ++ text) =
      readFrom [] ((literal.map Braced.char).reverse ++ current) text := by
  induction literal generalizing current with
  | nil => rfl
  | cons character literal ih =>
      simp only [List.mem_cons, not_or] at opened closed
      rw [List.cons_append, readFrom, if_neg (Ne.symm opened.1)]
      simp only [if_neg (Ne.symm closed.1)]
      rw [ih opened.2 closed.2]
      simp

theorem read_of_unbraced {text : Text} (opened : '\x7b' ∉ text) (closed : '\x7d' ∉ text) :
    read text = .ok (text.map Braced.char) := by
  have whole := readFrom_append opened closed [] []
  rw [List.append_nil, List.append_nil] at whole
  rw [read, whole, readFrom, List.reverse_reverse]

theorem choicesOfAll_map_char (text : Text) : choicesOfAll (text.map Braced.char) = [text] := by
  induction text with
  | nil => rfl
  | cons character text ih => simp [choicesOfAll, choices, ih]

theorem expansionsOfAll_map_char (choose : Nat → Nat → Nat) (text : Text) :
    expansionsOfAll choose (text.map Braced.char) = 0 := by
  induction text with
  | nil => rfl
  | cons character text ih => simp [expansionsOfAll, expansions, ih]

theorem expansionsOfAll_append (choose : Nat → Nat → Nat) (first second : List Braced) :
    expansionsOfAll choose (first ++ second) =
      expansionsOfAll choose first + expansionsOfAll choose second := by
  induction first with
  | nil => simp [expansionsOfAll]
  | cons element first ih => simp [expansionsOfAll, ih, Nat.add_assoc]

/-- Elements that were there before everything else, at the bottom of what has been read. -/
def under (base : List Braced) : List Open → List Braced → List Braced
  | [], current => current ++ base
  | _ :: _, current => current

def underlay (base : List Braced) : List Open → List Open
  | [] => []
  | inner :: others => ⟨under base others inner.before, inner.options⟩ :: underlay base others

theorem under_cons (base : List Braced) (outer : List Open) (element : Braced)
    (current : List Braced) : under base outer (element :: current) = element :: under base outer current := by
  cases outer <;> rfl

/-- What was there before stays in front, whatever is read. -/
theorem readFrom_under (base : List Braced) {outer : List Open} {current longer : List Braced}
    {text : Text}
    (reads : readFrom (underlay base outer) (under base outer current) text = .ok longer) :
    ∃ elements, readFrom outer current text = .ok elements ∧ longer = base.reverse ++ elements := by
  fun_induction readFrom outer current text with
  | case1 current =>
      rw [underlay, under, readFrom, Except.ok.injEq] at reads
      exact ⟨_, rfl, by simp [← reads]⟩
  | case2 => simp [underlay, readFrom] at reads
  | case3 outer current rest ih =>
      refine ih ?_
      cases outer with
      | nil => simpa [underlay, under, readFrom] using reads
      | cons inner others => simpa [underlay, under, readFrom] using reads
  | case4 => simp [underlay, under, readFrom] at reads
  | case5 current character rest opens closes ih =>
      refine ih ?_
      simpa [underlay, under, readFrom, opens, closes] using reads
  | case6 current rest inner others options _ ih =>
      refine ih ?_
      rw [under_cons]
      simpa [underlay, under, readFrom, options] using reads
  | case7 current rest inner others _ _ ih =>
      refine ih ?_
      simpa [underlay, under, readFrom] using reads
  | case8 current character rest opens inner others closes parts ih =>
      refine ih ?_
      simpa [underlay, under, readFrom, opens, closes, parts] using reads

theorem read_append {literal text : Text} {longer : List Braced} (opened : '\x7b' ∉ literal)
    (closed : '\x7d' ∉ literal) (reads : read (literal ++ text) = .ok longer) :
    ∃ elements, read text = .ok elements ∧ longer = literal.map Braced.char ++ elements := by
  rw [read, readFrom_append opened closed, List.append_nil] at reads
  have below := @readFrom_under (literal.map Braced.char).reverse [] [] longer text
  rw [underlay, under, List.nil_append, List.reverse_reverse] at below
  exact below reads

end Braced

theorem alternatives_eq_ok {text : Text} {globs : List Text} :
    alternatives text = .ok globs ↔
      ∃ elements, Braced.read text = .ok elements ∧
        globs = (Braced.choicesOfAll elements).eraseDups := by
  unfold alternatives
  cases Braced.read text with
  | error imbalance => simp
  | ok elements => simp [eq_comm]

theorem alternatives_unbraced {text : Text} (opened : '\x7b' ∉ text) (closed : '\x7d' ∉ text) :
    alternatives text = .ok [text] := by
  rw [alternatives, Braced.read_of_unbraced opened closed]
  simp only [Braced.choicesOfAll_map_char]
  rfl

theorem groupExpansions_unbraced {text : Text} (opened : '\x7b' ∉ text) (closed : '\x7d' ∉ text) :
    groupExpansions text = 0 := by
  rw [groupExpansions, Braced.read_of_unbraced opened closed]
  exact Braced.expansionsOfAll_map_char max text

section Alternatives

variable {literal text : Text} {globs longer : List Text} (opened : '\x7b' ∉ literal)
  (closed : '\x7d' ∉ literal)

include opened closed

/-- Text without braces in front of a pattern stands in front of each of its alternatives. -/
theorem alternatives_append (split : alternatives (literal ++ text) = .ok longer) :
    ∃ globs, alternatives text = .ok globs ∧
      ∀ glob, glob ∈ longer ↔ ∃ inner ∈ globs, glob = literal ++ inner := by
  obtain ⟨_, reads, rfl⟩ := alternatives_eq_ok.mp split
  obtain ⟨elements, inner, rfl⟩ := Braced.read_append opened closed reads
  refine ⟨_, alternatives_eq_ok.mpr ⟨elements, inner, rfl⟩, fun glob => ?_⟩
  simp only [List.mem_eraseDups, Braced.mem_choicesOfAll_append, Braced.choicesOfAll_map_char,
    List.mem_singleton]
  constructor
  · intro found
    obtain ⟨_, inner, rfl, chosen, rfl⟩ := found
    exact ⟨inner, chosen, rfl⟩
  · intro found
    obtain ⟨inner, chosen, rfl⟩ := found
    exact ⟨literal, inner, rfl, chosen, rfl⟩

theorem groupExpansions_append (split : alternatives (literal ++ text) = .ok longer) :
    groupExpansions (literal ++ text) = groupExpansions text := by
  obtain ⟨_, reads, -⟩ := alternatives_eq_ok.mp split
  obtain ⟨elements, inner, rfl⟩ := Braced.read_append opened closed reads
  rw [groupExpansions, groupExpansions, reads, inner]
  simp [Braced.expansionsOfAll_append, Braced.expansionsOfAll_map_char]

end Alternatives

theorem exists_alternative {text : Text} {globs : List Text} (split : alternatives text = .ok globs) :
    ∃ glob, glob ∈ globs := by
  obtain ⟨elements, reads, rfl⟩ := alternatives_eq_ok.mp split
  obtain ⟨choice, chosen⟩ := Braced.exists_choice reads
  exact ⟨choice, List.mem_eraseDups.mpr chosen⟩

/-- Two slashes in a row are in a row in some alternative. -/
theorem exists_alternative_of_slashes {text : Text} {globs : List Text}
    (split : alternatives text = .ok globs) (inside : ['/', '/'] <:+: text) :
    ∃ glob ∈ globs, ['/', '/'] <:+: glob := by
  obtain ⟨elements, reads, rfl⟩ := alternatives_eq_ok.mp split
  obtain ⟨choice, chosen, within⟩ := Braced.exists_choice_of_slashes Braced.live_nil reads inside
  exact ⟨choice, List.mem_eraseDups.mpr chosen, within⟩

/-- A slash at the end ends every alternative. -/
theorem ended_of_mem_alternatives {text glob : Text} {globs : List Text}
    (split : alternatives (text ++ ['/']) = .ok globs) (chosen : glob ∈ globs) :
    ∃ body, glob = body ++ ['/'] := by
  obtain ⟨elements, reads, rfl⟩ := alternatives_eq_ok.mp split
  obtain ⟨before, rfl⟩ := Braced.exists_of_readFrom_ended reads
  rw [List.mem_eraseDups] at chosen
  obtain ⟨body, last, -, slash, rfl⟩ := Braced.mem_choicesOfAll_append.mp chosen
  obtain rfl : last = ['/'] := List.mem_singleton.mp slash
  exact ⟨body, rfl⟩

theorem exists_alternative_of_ended {text : Text} {globs : List Text}
    (split : alternatives (text ++ ['/']) = .ok globs) : ∃ before, before ++ ['/'] ∈ globs := by
  obtain ⟨glob, chosen⟩ := exists_alternative split
  obtain ⟨before, rfl⟩ := ended_of_mem_alternatives split chosen
  exact ⟨before, chosen⟩

theorem checkClasses_append {literal : Text} (unclassed : '[' ∉ literal) (text : Text) :
    checkClasses (literal ++ text) = checkClasses text := by
  induction literal with
  | nil => rfl
  | cons character literal ih =>
      simp only [List.mem_cons, not_or] at unclassed
      rw [List.cons_append, checkClasses, if_neg (Ne.symm unclassed.1), ih unclassed.2]

theorem checkClasses_of_unclassed {text : Text} (unclassed : '[' ∉ text) :
    checkClasses text = .ok () := by
  have whole := checkClasses_append unclassed []
  rw [List.append_nil] at whole
  rw [whole, checkClasses]

theorem slashed_eq_self {text : Text} (unslashed : '\\' ∉ text) : slashed text = text := by
  rw [slashed, Text.replace]
  have stays : ∀ character ∈ text, (if character = '\\' then '/' else character) = character := by
    intro character member
    rw [if_neg]
    intro same
    exact unslashed (same ▸ member)
  rw [List.map_congr_left stays, List.map_id']

theorem back_notMem_slashed {text : Text} : '\\' ∉ slashed text := by
  intro member
  obtain ⟨character, -, same⟩ := List.mem_map.mp member
  by_cases back : character = '\\'
  · simp [back] at same
  · exact back (by rwa [if_neg back] at same)

theorem mem_of_mem_slashed {text : Text} {character : Char} (other : character ≠ '/')
    (member : character ∈ slashed text) : character ∈ text := by
  obtain ⟨written, held, same⟩ := List.mem_map.mp member
  by_cases back : written = '\\'
  · rw [if_pos back] at same
    exact absurd same.symm other
  · rw [if_neg back] at same
    exact same ▸ held

theorem slashed_ne_dot {text : Text} (other : text ≠ ['.']) : slashed text ≠ ['.'] := by
  intro same
  obtain ⟨initial, rfl, dot⟩ := List.map_eq_singleton_iff.mp same
  split at dot
  · cases dot
  · exact other (by rw [dot])

theorem compile_eq (pattern : Text) :
    compile pattern =
      if trimmed pattern = [] then .error (.malformed pattern .empty)
      else if expansionLimit < groupExpansions (trimmed pattern) then .error .tooManyExpansions
      else
        match alternatives (trimmed pattern) with
        | .error reason => .error (.malformed pattern reason)
        | .ok globs => globs.mapM (formsOf pattern) >>= fun forms =>
            .ok (.compiled (trimmed pattern) forms.flatten) := by
  unfold compile
  by_cases empty : trimmed pattern = []
  · simp only [if_pos empty]
    rfl
  · by_cases many : expansionLimit < groupExpansions (trimmed pattern)
    · simp only [if_neg empty, if_pos many]
      rfl
    · simp only [if_neg empty, if_neg many]
      cases alternatives (trimmed pattern) with
      | error reason => rfl
      | ok globs => rfl

section Compile

variable {pattern : Text} (trims : trimmed pattern = pattern) (nonempty : pattern ≠ [])
  (opened : '\x7b' ∉ pattern) (closed : '\x7d' ∉ pattern)

include trims nonempty opened closed

theorem compile_unbraced :
    compile pattern = formsOf pattern pattern >>= fun forms => .ok (.compiled pattern forms) := by
  have alone := alternatives_unbraced opened closed
  have few : ¬ expansionLimit < groupExpansions pattern := by simp [groupExpansions_unbraced opened closed]
  rw [compile_eq, trims, if_neg nonempty, if_neg few, alone]
  change ([pattern].mapM (formsOf pattern) >>= fun forms =>
    Except.ok (Matcher.compiled pattern forms.flatten)) = _
  rw [List.mapM_cons, List.mapM_nil]
  cases formsOf pattern pattern with
  | error error => rfl
  | ok forms =>
      have same : [forms].flatten = forms := by simp
      change Except.ok (Matcher.compiled pattern [forms].flatten) = _
      rw [same]
      rfl

end Compile

end PathSearch.Glob
