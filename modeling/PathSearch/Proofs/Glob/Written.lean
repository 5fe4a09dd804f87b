import PathSearch.Proofs.Glob.Literal

/-!
What a text with braces is read as, and which texts can be read. Characters and groups that are written down
are read back as they were; a text is read when its braces are balanced, and otherwise it goes on, behind what
has been read of it, with a brace that closes no group or that no brace closes.
-/

namespace PathSearch.Glob

/-- No brace closes more groups than are open, when so many are open in front of the text. -/
def ClosesWithin (depth : Nat) (text : Text) : Prop :=
  ∀ front, front <+: text → front.count '\x7d' ≤ front.count '\x7b' + depth

/-- Every brace has its counterpart. -/
structure IsBalanced (text : Text) : Prop where
  opened : ∀ front, front <+: text → front.count '\x7d' ≤ front.count '\x7b'
  closed : text.count '\x7d' = text.count '\x7b'

section Balance

variable {text first second : Text} {character : Char} {depth : Nat}

theorem closesWithin_zero :
    ClosesWithin 0 text ↔ ∀ front, front <+: text → front.count '\x7d' ≤ front.count '\x7b' := Iff.rfl

theorem ClosesWithin.append (opened : ClosesWithin 0 first) (further : ClosesWithin 0 second) :
    ClosesWithin 0 (first ++ second) := by
  rw [closesWithin_zero] at opened further ⊢
  intro front within
  rw [List.prefix_iff_eq_take.mp within, List.take_append, List.count_append, List.count_append]
  exact Nat.add_le_add (opened _ (List.take_prefix _ _)) (further _ (List.take_prefix _ _))

theorem closesWithin_of_notMem (absent : '\x7d' ∉ text) : ClosesWithin depth text := by
  intro front within
  rw [List.count_eq_zero.mpr fun held => absent (within.subset held)]
  exact Nat.zero_le _

theorem ClosesWithin.after_open (within : ClosesWithin depth ('\x7b' :: text)) :
    ClosesWithin (depth + 1) text := by
  intro front start
  have whole := within ('\x7b' :: front) (List.cons_prefix_cons.mpr ⟨rfl, start⟩)
  simp only [List.count_cons_self, List.count_cons_of_ne (show '\x7b' ≠ '\x7d' by decide)] at whole
  omega

theorem ClosesWithin.after_close (within : ClosesWithin depth ('\x7d' :: text)) :
    ∃ less, depth = less + 1 ∧ ClosesWithin less text := by
  have counts : ∀ front, front <+: text → front.count '\x7d' + 1 ≤ front.count '\x7b' + depth := by
    intro front start
    have whole := within ('\x7d' :: front) (List.cons_prefix_cons.mpr ⟨rfl, start⟩)
    simpa only [List.count_cons_self, List.count_cons_of_ne (show '\x7d' ≠ '\x7b' by decide)] using whole
  have one := counts [] List.nil_prefix
  simp only [List.count_nil] at one
  refine ⟨depth - 1, by omega, fun front start => ?_⟩
  have more := counts front start
  omega

theorem ClosesWithin.after_char (within : ClosesWithin depth (character :: text))
    (opens : character ≠ '\x7b') (closes : character ≠ '\x7d') : ClosesWithin depth text := by
  intro front start
  have whole := within (character :: front) (List.cons_prefix_cons.mpr ⟨rfl, start⟩)
  simpa only [List.count_cons_of_ne opens, List.count_cons_of_ne closes] using whole

theorem IsBalanced.append (balanced : IsBalanced first) (further : IsBalanced second) :
    IsBalanced (first ++ second) where
  opened := ClosesWithin.append balanced.opened further.opened
  closed := by rw [List.count_append, List.count_append, balanced.closed, further.closed]

theorem isBalanced_nil : IsBalanced [] where
  opened front within := by simp [List.prefix_nil.mp within]
  closed := rfl

theorem isBalanced_singleton (opens : character ≠ '\x7b') (closes : character ≠ '\x7d') :
    IsBalanced [character] where
  opened := closesWithin_zero.mp (closesWithin_of_notMem (by simpa using Ne.symm closes))
  closed := by simp [opens, closes]

/-- A group is balanced when what stands between its braces is. -/
theorem IsBalanced.group (balanced : IsBalanced text) :
    IsBalanced ('\x7b' :: text ++ ['\x7d']) where
  opened := by
    have entered : ClosesWithin 0 ['\x7b'] := closesWithin_of_notMem (by decide)
    intro front within
    rcases List.prefix_concat_iff.mp within with rfl | within
    · simp [balanced.closed]
    · exact (entered.append balanced.opened) front within
  closed := by simp [balanced.closed]

theorem isBalanced_flatMap {α : Type} {parts : List α} {write : α → Text}
    (balanced : ∀ part ∈ parts, IsBalanced (write part)) : IsBalanced (parts.flatMap write) := by
  induction parts with
  | nil => exact isBalanced_nil
  | cons part parts ih =>
      rw [List.forall_mem_cons] at balanced
      exact balanced.1.append (ih balanced.2)

end Balance

namespace Braced

section Proper

mutual

/-- An element that can be told from what it is written beside: its characters are not braces, nor commas at
the level of an option, and its groups have options. -/
def Proper (inside : Prop) : Braced → Prop
  | .char character => character ≠ '\x7b' ∧ character ≠ '\x7d' ∧ (inside → character ≠ ',')
  | .group options => options ≠ [] ∧ ProperOptions options

def ProperAll (inside : Prop) : List Braced → Prop
  | [] => True
  | element :: rest => element.Proper inside ∧ ProperAll inside rest

def ProperOptions : List (List Braced) → Prop
  | [] => True
  | option :: others => ProperAll True option ∧ ProperOptions others

end

variable {inside : Prop} {elements first second : List Braced} {options : List (List Braced)}
  {before current : List Braced} {outer : List Open} {rest : Text}

theorem properAll_iff : ProperAll inside elements ↔ ∀ element ∈ elements, element.Proper inside := by
  induction elements with
  | nil => simp [ProperAll]
  | cons element elements ih => simp [ProperAll, ih]

theorem properOptions_iff : ProperOptions options ↔ ∀ option ∈ options, ProperAll True option := by
  induction options with
  | nil => simp [ProperOptions]
  | cons option options ih => simp [ProperOptions, ih]

theorem properAll_append :
    ProperAll inside (first ++ second) ↔ ProperAll inside first ∧ ProperAll inside second := by
  simp only [properAll_iff, List.forall_mem_append]

theorem ProperAll.imp {level : Prop} (proper : ProperAll inside elements) (weaker : level → inside) :
    ProperAll level elements := by
  rw [properAll_iff] at proper ⊢
  intro element member
  have held := proper element member
  cases element with
  | char character => exact ⟨held.1, held.2.1, fun deep => held.2.2 (weaker deep)⟩
  | group options => exact held

theorem textOfAll_append (first second : List Braced) :
    textOfAll (first ++ second) = textOfAll first ++ textOfAll second := by
  induction first with
  | nil => rfl
  | cons element first ih => simp [textOfAll, ih]

theorem textOfAll_map_char (text : Text) : textOfAll (text.map Braced.char) = text := by
  induction text with
  | nil => rfl
  | cons character text ih => simp [textOfAll, Braced.text, ih]

theorem textOfOptions_cons (option : List Braced) (more : options ≠ []) :
    textOfOptions (option :: options) = textOfAll option ++ ',' :: textOfOptions options := by
  rw [textOfOptions]
  exact more

mutual

theorem Proper.isBalanced :
    {level : Prop} → {element : Braced} → element.Proper level → IsBalanced element.text
  | _, .char _, proper => isBalanced_singleton proper.1 proper.2.1
  | _, .group _, proper => (ProperOptions.isBalanced proper.2).group

theorem ProperAll.isBalanced :
    {level : Prop} → {elements : List Braced} → ProperAll level elements →
      IsBalanced (textOfAll elements)
  | _, [], _ => isBalanced_nil
  | _, _ :: _, proper => proper.1.isBalanced.append (ProperAll.isBalanced proper.2)

theorem ProperOptions.isBalanced :
    {options : List (List Braced)} → ProperOptions options → IsBalanced (textOfOptions options)
  | [], _ => isBalanced_nil
  | [_], proper => ProperAll.isBalanced proper.1
  | option :: _ :: _, proper => by
      have comma : IsBalanced [','] := isBalanced_singleton (by decide) (by decide)
      have later := ProperOptions.isBalanced proper.2
      rw [textOfOptions_cons option (List.cons_ne_nil _ _)]
      exact (ProperAll.isBalanced proper.1).append (comma.append later)

end

end Proper

section Read

variable {character : Char} {elements current : List Braced} {outer others : List Open} {inner : Open}
  {rest text : Text}

theorem readFrom_open :
    readFrom outer current ('\x7b' :: rest) = readFrom (⟨current, []⟩ :: outer) [] rest := by
  cases outer <;> simp [readFrom]

theorem readFrom_close :
    readFrom (inner :: others) current ('\x7d' :: rest) =
      readFrom others (.group (current.reverse :: inner.options).reverse :: inner.before) rest := by
  simp [readFrom]

theorem readFrom_comma :
    readFrom (inner :: others) current (',' :: rest) =
      readFrom (⟨inner.before, current.reverse :: inner.options⟩ :: others) [] rest := by
  simp [readFrom]

theorem readFrom_char (opens : character ≠ '\x7b') (closes : character ≠ '\x7d')
    (parts : outer ≠ [] → character ≠ ',') :
    readFrom outer current (character :: rest) = readFrom outer (.char character :: current) rest := by
  cases outer with
  | nil => simp [readFrom, opens, closes]
  | cons inner others => simp [readFrom, opens, closes, parts (List.cons_ne_nil _ _)]

mutual

/-- What is written down is read back. -/
theorem readFrom_text : {element : Braced} → {outer : List Open} → {current : List Braced} →
    {rest : Text} → element.Proper (outer ≠ []) →
      readFrom outer current (element.text ++ rest) = readFrom outer (element :: current) rest
  | .char _, _, _, _, proper => readFrom_char proper.1 proper.2.1 proper.2.2
  | .group options, outer, current, rest, proper => by
      rw [Braced.text, List.append_assoc, List.cons_append, readFrom_open]
      exact readFrom_textOfOptions proper.2 proper.1

theorem readFrom_textOfAll : {elements : List Braced} → {outer : List Open} →
    {current : List Braced} → {rest : Text} → ProperAll (outer ≠ []) elements →
      readFrom outer current (textOfAll elements ++ rest) =
        readFrom outer (elements.reverse ++ current) rest
  | [], _, _, _, _ => rfl
  | _ :: _, _, _, _, proper => by
      rw [textOfAll, List.append_assoc, readFrom_text proper.1, readFrom_textOfAll proper.2,
        List.reverse_cons, List.append_assoc, List.singleton_append]

theorem readFrom_textOfOptions : {options done : List (List Braced)} → {outer : List Open} →
    {before : List Braced} → {rest : Text} → ProperOptions options → options ≠ [] →
      readFrom (⟨before, done⟩ :: outer) [] (textOfOptions options ++ '\x7d' :: rest) =
        readFrom outer (.group (done.reverse ++ options) :: before) rest
  | [option], done, outer, before, rest, proper, _ => by
      have level : ProperAll (⟨before, done⟩ :: outer ≠ []) option := proper.1.imp fun _ => trivial
      rw [textOfOptions, readFrom_textOfAll level, readFrom_close]
      simp
  | option :: _ :: _, done, outer, before, rest, proper, _ => by
      have level : ProperAll (⟨before, done⟩ :: outer ≠ []) option := proper.1.imp fun _ => trivial
      rw [textOfOptions_cons option (List.cons_ne_nil _ _), List.append_assoc, readFrom_textOfAll level,
        List.cons_append, readFrom_comma, readFrom_textOfOptions proper.2 (List.cons_ne_nil _ _)]
      simp

end

/-- A group that is never closed is reported with what is in front of it. -/
theorem readFrom_unclosed {before : List Braced} {options : List (List Braced)}
    (within : ClosesWithin outer.length text) :
    readFrom (outer ++ [⟨before, options⟩]) current text =
      .error ⟨.unclosedBrace, before.reverse⟩ := by
  induction text generalizing outer current options with
  | nil =>
      cases outer with
      | nil => rfl
      | cons inner others =>
          rw [List.cons_append, readFrom, List.getLastD_concat]
  | cons character rest ih =>
      by_cases opens : character = '\x7b'
      · subst opens
        rw [readFrom_open, ← List.cons_append]
        exact ih within.after_open
      · by_cases closes : character = '\x7d'
        · subst closes
          obtain ⟨less, length, fewer⟩ := within.after_close
          obtain ⟨inner, others, rfl⟩ := List.exists_cons_of_length_eq_add_one length
          obtain rfl : others.length = less := Nat.succ.inj length
          rw [List.cons_append, readFrom_close]
          exact ih fewer
        · by_cases parts : character = ','
          · subst parts
            have rest := within.after_char opens closes
            cases outer with
            | nil =>
                rw [List.nil_append, readFrom_comma]
                exact @ih [] _ _ rest
            | cons inner others =>
                rw [List.cons_append, readFrom_comma, ← List.cons_append]
                exact ih rest
          · rw [readFrom_char opens closes fun _ => parts]
            exact ih (within.after_char opens closes)

end Read

section Split

variable {elements current : List Braced} {outer others : List Open} {inner : Open}
  {rest text : Text} {stop : Option Reason}

/-- Where the elements of a text end: at the end of the text, or in front of a brace that closes no group or
that no brace closes. -/
inductive Stops : Text → Option Reason → Prop where
  | done : Stops [] none
  | unmatched (rest : Text) : Stops ('\x7d' :: rest) (some .unmatchedBrace)
  | unclosed {rest : Text} (within : ClosesWithin 0 rest) :
      Stops ('\x7b' :: rest) (some .unclosedBrace)

/-- A text in parts: the elements that can be read, and the rest, which says why nothing more can be. -/
structure Splits (text : Text) (elements : List Braced) (rest : Text) (stop : Option Reason) : Prop where
  proper : ProperAll False elements
  written : text = textOfAll elements ++ rest
  stops : Stops rest stop

/-- The groups that are open and the elements at hand, and the text that they have been read from. -/
inductive Written : List Open → List Braced → Text → Prop where
  | outside {current : List Braced} (proper : ProperAll False current.reverse) :
      Written [] current (textOfAll current.reverse)
  | inside {others : List Open} {before current : List Braced} {options : List (List Braced)}
      {front : Text} (around : Written others before front)
      (done : ∀ option ∈ options, ProperAll True option) (proper : ProperAll True current.reverse) :
      Written (⟨before, options⟩ :: others) current
        (front ++ '\x7b' :: (options.reverse.flatMap fun option => textOfAll option ++ [',']) ++
          textOfAll current.reverse)

theorem ProperAll.concat {inside : Prop} {element : Braced} (proper : ProperAll inside elements)
    (last : element.Proper inside) : ProperAll inside (elements ++ [element]) :=
  properAll_append.mpr ⟨proper, last, trivial⟩

theorem textOfAll_concat (elements : List Braced) (element : Braced) :
    textOfAll (elements ++ [element]) = textOfAll elements ++ element.text := by
  rw [textOfAll_append, textOfAll, textOfAll, List.append_nil]

theorem Written.push {element : Braced} (written : Written outer current text)
    (proper : element.Proper (outer ≠ [])) :
    Written outer (element :: current) (text ++ element.text) := by
  cases written with
  | outside whole =>
      have longer := whole.concat (by simpa using proper)
      rw [← textOfAll_concat, ← List.reverse_cons]
      exact .outside (by simpa using longer)
  | inside around done whole =>
      have longer := whole.concat (by simpa using proper)
      rw [List.append_assoc, ← textOfAll_concat, ← List.reverse_cons]
      exact .inside around done (by simpa using longer)

theorem Written.opened (written : Written outer current text) :
    Written (⟨current, []⟩ :: outer) [] (text ++ ['\x7b']) := by
  have none : ∀ option ∈ ([] : List (List Braced)), ProperAll True option := by simp
  have inside := written.inside none (show ProperAll True [].reverse from trivial)
  simpa [textOfAll] using inside

theorem Written.parted (written : Written (inner :: others) current text) :
    Written (⟨inner.before, current.reverse :: inner.options⟩ :: others) [] (text ++ [',']) := by
  cases written with
  | inside around done proper =>
      have later := around.inside (List.forall_mem_cons.mpr ⟨proper, done⟩)
        (show ProperAll True [].reverse from trivial)
      simpa [textOfAll] using later

theorem textOfOptions_concat (options : List (List Braced)) (option : List Braced) :
    textOfOptions (options ++ [option]) =
      (options.flatMap fun option => textOfAll option ++ [',']) ++ textOfAll option := by
  induction options with
  | nil => simp [textOfOptions]
  | cons first options ih =>
      rw [List.cons_append, textOfOptions_cons first (by simp), ih]
      simp

theorem Written.closed (written : Written (inner :: others) current text) :
    Written others (.group (current.reverse :: inner.options).reverse :: inner.before)
      (text ++ ['\x7d']) := by
  cases written with
  | @inside _ before _ options front around done proper =>
      have all : ProperOptions (current.reverse :: options).reverse := by
        rw [properOptions_iff]
        intro option member
        rcases List.mem_cons.mp (List.mem_reverse.mp member) with rfl | member
        · exact proper
        · exact done option member
      have closed := around.push (show Proper _ (.group _) from ⟨by simp, all⟩)
      rw [Braced.text, List.reverse_cons, textOfOptions_concat] at closed
      simpa using closed

/-- With groups open, there is one that is open outermost. -/
theorem Written.exists_unclosed (written : Written outer current text) (inside : outer ≠ []) :
    ∃ before rest, ProperAll False before ∧ text = textOfAll before ++ '\x7b' :: rest ∧
      ClosesWithin 0 rest := by
  induction written with
  | outside => exact absurd rfl inside
  | @inside others before current options front around done proper ih =>
      have comma : IsBalanced [','] := isBalanced_singleton (by decide) (by decide)
      have finished : IsBalanced (options.reverse.flatMap fun option => textOfAll option ++ [',']) :=
        isBalanced_flatMap fun option member =>
          (done option (List.mem_reverse.mp member)).isBalanced.append comma
      have own := finished.append proper.isBalanced
      cases around with
      | outside whole => exact ⟨_, _, whole, by rw [List.append_assoc, List.cons_append], own.opened⟩
      | inside =>
          obtain ⟨first, rest, whole, written, within⟩ := ih (List.cons_ne_nil _ _)
          have entered : ClosesWithin 0 ['\x7b'] := closesWithin_of_notMem (by decide)
          refine ⟨first, _, whole, ?_, within.append (entered.append own.opened)⟩
          rw [written]
          simp

/-- Every text comes in such parts. -/
theorem Written.exists_splits (written : Written outer current text) (later : Text) :
    ∃ elements rest stop, Splits (text ++ later) elements rest stop := by
  induction later generalizing outer current text with
  | nil =>
      rw [List.append_nil]
      cases outer with
      | nil =>
          cases written with
          | outside proper => exact ⟨_, [], none, proper, (List.append_nil _).symm, .done⟩
      | cons inner others =>
          obtain ⟨before, rest, proper, split, within⟩ := written.exists_unclosed (List.cons_ne_nil _ _)
          exact ⟨before, _, _, proper, split, .unclosed within⟩
  | cons character later ih =>
      have onward : ∀ further next, Written further next (text ++ [character]) →
          ∃ elements rest stop, Splits (text ++ character :: later) elements rest stop := by
        intro further next written
        have split := ih written
        rwa [List.append_assoc, List.singleton_append] at split
      by_cases opens : character = '\x7b'
      · subst opens
        exact onward _ _ written.opened
      · by_cases closes : character = '\x7d'
        · subst closes
          cases outer with
          | nil =>
              cases written with
              | outside proper => exact ⟨_, _, _, proper, rfl, .unmatched later⟩
          | cons inner others => exact onward _ _ written.closed
        · by_cases parts : outer ≠ [] ∧ character = ','
          · obtain ⟨inside, rfl⟩ := parts
            obtain ⟨inner, others, rfl⟩ := List.exists_cons_of_ne_nil inside
            exact onward _ _ written.parted
          · have proper : (Braced.char character).Proper (outer ≠ []) :=
              ⟨opens, closes, fun inside comma => parts ⟨inside, comma⟩⟩
            exact onward _ _ (written.push proper)

theorem exists_splits (text : Text) : ∃ elements rest stop, Splits text elements rest stop :=
  Written.exists_splits (.outside (show ProperAll False [].reverse from trivial)) text

/-- What is read of a text in parts. -/
theorem Splits.read_eq (splits : Splits text elements rest stop) :
    read text = stop.elim (.ok elements) fun reason => .error ⟨reason, elements⟩ := by
  have start : ∀ rest, read (textOfAll elements ++ rest) = readFrom [] elements.reverse rest := by
    intro rest
    have level : ProperAll (([] : List Open) ≠ []) elements := splits.proper.imp (by simp)
    rw [read, readFrom_textOfAll level, List.append_nil]
  rw [splits.written, start]
  cases splits.stops with
  | done => rw [readFrom, List.reverse_reverse, Option.elim_none]
  | unmatched => simp [readFrom]
  | unclosed within =>
      rw [readFrom_open]
      have left := @readFrom_unclosed [] [] _ elements.reverse [] within
      rwa [List.reverse_reverse] at left

/-- What can be read has balanced braces, and nothing else has. -/
theorem Splits.isBalanced_iff (splits : Splits text elements rest stop) :
    IsBalanced text ↔ stop = none := by
  have own := splits.proper.isBalanced
  rw [splits.written]
  cases splits.stops with
  | done => simpa using own
  | unmatched rest =>
      refine iff_of_false (fun balanced => ?_) (by simp)
      have more := balanced.opened (textOfAll elements ++ ['\x7d']) (by simp)
      simp only [List.count_append, own.closed] at more
      exact Nat.not_succ_le_self _ more
  | @unclosed rest within =>
      refine iff_of_false (fun balanced => ?_) (by simp)
      have more := within rest List.prefix_rfl
      have totals := balanced.closed
      simp [own.closed] at totals more
      omega

end Split

end Braced

end PathSearch.Glob
