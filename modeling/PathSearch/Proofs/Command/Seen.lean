import Mathlib.Data.List.Forall2
import PathSearch.Command.Options
import PathSearch.Proofs.Results

/-!
The same arguments read with all options known and with the marking ones only. What is taken for another
option then is `-v` and whatever shares its argument.
-/

namespace PathSearch

namespace Flag

variable {flag : Flag} {word : Text} {letter : Char}

theorem blank_notMem_word (flag : Flag) : ' ' ∉ flag.word.toList := by
  cases flag <;> decide

theorem ofWord?_marking (flag : Flag) :
    ofWord? marking flag.word.toList = (if flag ∈ marking then some flag else none) ∧
      (flag ∉ marking → startingWith marking flag.word.toList = []) := by
  cases flag <;> decide

theorem ofWord?_marking_of_none (unknown : ofWord? all word = none) : ofWord? marking word = none := by
  rw [ofWord?, List.find?_eq_none] at unknown ⊢
  exact fun flag member => unknown flag (List.mem_filter.mp member).1

theorem startingWith_marking :
    startingWith marking word = (startingWith all word).filter fun flag => flag ∈ marking := by
  have marks : ∀ flag : Flag, decide (flag ∈ marking) = (flag.field?.isSome || decide (flag = nul)) := by
    intro flag
    cases flag <;> decide
  simp only [startingWith, List.filter_filter, marks]
  rw [marking, List.filter_filter]
  exact List.filter_congr fun flag _ => Bool.and_comm ..

theorem ofLetter?_marking (known : ofLetter? all letter = some flag) :
    ofLetter? marking letter = if flag ∈ marking then some flag else none := by
  have written : flag.letter? = some letter := by simpa using List.find?_some known
  cases flag <;> cases written <;> decide

theorem ofLetter?_marking_of_none (unknown : ofLetter? all letter = none) :
    ofLetter? marking letter = none := by
  rw [ofLetter?, List.find?_eq_none] at unknown ⊢
  exact fun flag member => unknown flag (List.mem_filter.mp member).1

theorem letter_ne_blank (known : ofLetter? all letter = some flag) : letter ≠ ' ' := by
  have written : flag.letter? = some letter := by simpa using List.find?_some known
  rintro rfl
  cases flag <;> cases written

theorem lettered (known : ofLetter? all letter = some flag) :
    flag ∈ marking ∨ flag = .help ∨ flag = .verbose := by
  have written : flag.letter? = some letter := by simpa using List.find?_some known
  cases flag <;> cases written <;> decide

theorem verbose_notMem_marking : verbose ∉ marking := by decide

theorem switch_of_hidden (hidden : flag ∉ marking) : flag.takesValue = false ∧ flag.field? = none := by
  cases flag <;> first | exact ⟨rfl, rfl⟩ | exact absurd (by decide) hidden

theorem field?_ne_baseDir (flag : Flag) : flag.field? ≠ some .baseDir := by
  cases flag <;> decide

end Flag

namespace Arguments

/-- How the two readings take one argument. With the marking options only, an option that is none of them
is passed over, or it is a plain argument, if there is a blank in it. -/
inductive Seen : Token → Token → Prop
  | plain (text : Text) : Seen (.plain text) (.plain text)
  | separator : Seen .separator .separator
  | unknown (text : Text) : Seen (.unknown text) (.unknown text)
  | short {flag : Flag} (marking : flag ∈ Flag.marking) (attached : Option Text) :
      Seen (.short flag attached) (.short flag attached)
  | long {flag : Flag} (marking : flag ∈ Flag.marking) (attached : Option Text) :
      Seen (.long flag attached) (.long flag attached)
  | verbose {attached : Option Text} {written : Text}
      (spaced : ' ' ∈ written ↔ ∃ text ∈ attached, ' ' ∈ text) :
      Seen (.short .verbose attached) (unmatched written)
  | help (attached : Option Text) (token : Token) : Seen (.short .help attached) token
  | hiddenLong {flag : Flag} (hidden : flag ∉ Flag.marking) (written : Text) :
      Seen (.long flag none) (.unknown written)
  | refused {flag : Flag} (hidden : flag ∉ Flag.marking) (value : Text) (token : Token) :
      Seen (.long flag (some value)) token

theorem seen_unmatched (written : Text) : Seen (unmatched written) (unmatched written) := by
  unfold unmatched
  split
  · exact .plain written
  · exact .unknown written

theorem forall₂_seen_plain (texts : List Text) :
    List.Forall₂ Seen (texts.map .plain) (texts.map .plain) := by
  induction texts with
  | nil => exact .nil
  | cons text texts ih => exact .cons (.plain text) ih

section Token

variable {written : Text} {first : Token}

theorem seen_shortToken (letter : Char) (rest : Text) :
    Seen (shortToken Flag.all letter rest) (shortToken Flag.marking letter rest) := by
  unfold shortToken
  cases known : Flag.ofLetter? Flag.all letter with
  | none =>
      rw [Flag.ofLetter?_marking_of_none known]
      exact seen_unmatched _
  | some flag =>
      have shown := Flag.letter_ne_blank known
      rw [Flag.ofLetter?_marking known]
      rcases Flag.lettered known with marking | rfl | rfl
      · simp only [if_pos marking]
        split <;> exact .short marking _
      · simp only
        split <;> exact .help _ _
      · simp only [if_neg Flag.verbose_notMem_marking]
        split <;> exact .verbose (by simp [Ne.symm shown])

/-- The token for a word and what is attached to it, written in one argument. -/
def wordToken (known : List Flag) (written word : Text) (attached : Option Text) : Except Refusal Token :=
  match Flag.ofWord? known word with
  | some flag => .ok (.long flag attached)
  | none =>
      match Flag.startingWith known word with
      | [] => .ok (unmatched written)
      | [flag] => .ok (.long flag attached)
      | candidates => .error (.ambiguous written candidates)

theorem exists_longToken_eq (written : Text) :
    ∃ word attached, (attached = none → word = written) ∧
      ∀ known, longToken known written = wordToken known written word attached := by
  cases parted : Text.splitFirst? '=' written with
  | none =>
      refine ⟨written, none, fun _ => rfl, ?_⟩
      intro known
      simp only [longToken, parted]
      rfl
  | some parts =>
      refine ⟨parts.1, some parts.2, by simp, ?_⟩
      intro known
      simp only [longToken, parted]
      rfl

theorem seen_hidden {flag : Flag} (hidden : flag ∉ Flag.marking) {word : Text} {attached : Option Text}
    (whole : attached = none → word = written) (start : word <+: flag.word.toList) :
    Seen (.long flag attached) (unmatched written) := by
  cases attached with
  | some value => exact .refused hidden value _
  | none =>
      have blankless : written.contains ' ' = false := by
        rw [← whole rfl, List.contains_eq_mem, decide_eq_false_iff_not]
        exact fun inside => Flag.blank_notMem_word flag (start.subset inside)
      rw [unmatched, blankless]
      exact .hiddenLong hidden written

theorem exists_longToken_seen (read : longToken Flag.all written = .ok first) :
    ∃ second, longToken Flag.marking written = .ok second ∧ Seen first second := by
  obtain ⟨word, attached, whole, same⟩ := exists_longToken_eq written
  rw [same, wordToken] at read
  rw [same, wordToken]
  cases known : Flag.ofWord? Flag.all word with
  | some flag =>
      obtain rfl : flag.word.toList = word := by simpa using List.find?_some known
      obtain ⟨found, missing⟩ := Flag.ofWord?_marking flag
      obtain rfl : Token.long flag attached = first := by simpa [known] using read
      by_cases marking : flag ∈ Flag.marking
      · rw [found, if_pos marking]
        exact ⟨_, rfl, .long marking attached⟩
      · rw [found, if_neg marking, missing marking]
        exact ⟨_, rfl, seen_hidden marking whole (List.prefix_refl _)⟩
  | none =>
      rw [known] at read
      rw [Flag.ofWord?_marking_of_none known, Flag.startingWith_marking]
      simp only at read ⊢
      split at read
      · rename_i none
        cases read
        rw [none]
        exact ⟨_, rfl, seen_unmatched written⟩
      · rename_i flag alone
        cases read
        have start : word <+: flag.word.toList := by
          have member : flag ∈ Flag.startingWith Flag.all word := by simp [alone]
          simpa [Flag.startingWith] using (List.mem_filter.mp member).2
        rw [alone]
        by_cases marking : flag ∈ Flag.marking
        · rw [List.filter_cons_of_pos (by simpa using marking)]
          exact ⟨_, rfl, .long marking attached⟩
        · rw [List.filter_cons_of_neg (by simpa using marking)]
          exact ⟨_, rfl, seen_hidden marking whole start⟩
      · cases read

theorem exists_token_seen (read : token Flag.all written = .ok first) :
    ∃ second, token Flag.marking written = .ok second ∧ Seen first second := by
  unfold token at read ⊢
  split at read
  · exact exists_longToken_seen read
  · cases read
    exact ⟨_, rfl, seen_shortToken ..⟩
  · cases read
    exact ⟨_, rfl, .plain written⟩

end Token

theorem exists_tokens_seen {arguments : List Text} {first : List Token}
    (read : tokens Flag.all arguments = .ok first) :
    ∃ second, tokens Flag.marking arguments = .ok second ∧ List.Forall₂ Seen first second := by
  induction arguments generalizing first with
  | nil =>
      cases read
      exact ⟨[], rfl, .nil⟩
  | cons written rest ih =>
      unfold tokens at read ⊢
      by_cases ended : written = separatorText
      · rw [if_pos ended] at read ⊢
        cases read
        exact ⟨_, rfl, .cons .separator (forall₂_seen_plain rest)⟩
      · rw [if_neg ended] at read ⊢
        obtain ⟨token, one, read⟩ := bind_eq_ok.mp read
        obtain ⟨others, later, read⟩ := bind_eq_ok.mp read
        cases read
        obtain ⟨second, again, seen⟩ := exists_token_seen one
        obtain ⟨more, reread, all⟩ := ih later
        refine ⟨second :: more, ?_, .cons seen all⟩
        rw [again, reread]
        rfl

/-- The options of a cluster. -/
def Cluster.flags (cluster : Cluster) : List Flag := cluster.switches ++ [cluster.last]

section Cluster

variable {known : List Flag} {flag : Flag} {text : Text} {read : Cluster}

theorem cluster_of_takesValue (takes : flag.takesValue = true) (text : Text) :
    cluster known flag text = .ok ⟨[], flag, some text⟩ := by
  cases text <;> simp [cluster, takes]

theorem mem_flags_of_cluster (found : cluster known flag text = .ok read) : flag ∈ read.flags := by
  cases text with
  | nil =>
      simp only [cluster] at found
      split at found <;> cases found
      simp [Cluster.flags]
  | cons letter rest =>
      simp only [cluster] at found
      split at found
      · cases found
        simp [Cluster.flags]
      · split at found
        · cases found
        · split at found
          · cases found
            simp [Cluster.flags]
          · obtain ⟨others, -, found⟩ := bind_eq_ok.mp found
            cases found
            simp [Cluster.flags]

/-- Letters after one of a marking option are read alike, up to a `v`, which ends the marking reading. -/
theorem cluster_marking (marking : flag ∈ Flag.marking) (found : cluster Flag.all flag text = .ok read)
    (helpless : Flag.help ∉ read.flags) :
    (Flag.verbose ∈ read.flags ∧ ∃ refusal, cluster Flag.marking flag text = .error refusal) ∨
      (Flag.verbose ∉ read.flags ∧ cluster Flag.marking flag text = .ok read) := by
  have other : Flag.verbose ≠ flag := fun same => Flag.verbose_notMem_marking (same ▸ marking)
  induction text generalizing flag read with
  | nil =>
      by_cases takes : flag.takesValue = true
      · rw [cluster_of_takesValue takes] at found ⊢
        cases found
        exact .inr ⟨by simp [Cluster.flags, other], rfl⟩
      · simp [cluster, takes] at found
  | cons letter rest ih =>
      by_cases takes : flag.takesValue = true
      · rw [cluster_of_takesValue takes] at found ⊢
        cases found
        exact .inr ⟨by simp [Cluster.flags, other], rfl⟩
      · rw [cluster, if_neg takes] at found ⊢
        cases known : Flag.ofLetter? Flag.all letter with
        | none => simp [known] at found
        | some next =>
            rw [Flag.ofLetter?_marking known]
            simp only [known] at found
            by_cases last : rest = []
            · rw [if_pos last] at found
              cases found
              rcases Flag.lettered known with also | rfl | rfl
              · have apart : Flag.verbose ≠ next := fun same => Flag.verbose_notMem_marking (same ▸ also)
                rw [if_pos also]
                exact .inr ⟨by simp [Cluster.flags, other, apart], if_pos last⟩
              · exact absurd (by simp [Cluster.flags]) helpless
              · exact .inl ⟨by simp [Cluster.flags], _, rfl⟩
            · rw [if_neg last] at found
              obtain ⟨others, later, found⟩ := bind_eq_ok.mp found
              cases found
              have there := mem_flags_of_cluster later
              have flags : Cluster.flags { others with switches := flag :: others.switches } =
                  flag :: others.flags := rfl
              rw [flags, List.mem_cons, not_or] at helpless
              rw [flags, List.mem_cons, or_iff_right other]
              rcases Flag.lettered known with also | rfl | rfl
              · have apart : Flag.verbose ≠ next := fun same => Flag.verbose_notMem_marking (same ▸ also)
                simp only [if_pos also, if_neg last]
                rcases ih also later helpless.2 apart with ⟨ends, refusal, broken⟩ | ⟨free, same⟩
                · exact .inl ⟨ends, refusal, by rw [broken]; rfl⟩
                · exact .inr ⟨free, by rw [same]; rfl⟩
              · exact absurd there helpless.2
              · exact .inl ⟨there, _, rfl⟩

theorem attached_of_cluster (found : cluster known flag text = .ok read)
    (attached : read.attached ≠ none) : read.last.takesValue = true := by
  induction text generalizing flag read with
  | nil =>
      simp only [cluster] at found
      split at found
      · cases found
        assumption
      · cases found
  | cons letter rest ih =>
      simp only [cluster] at found
      split at found
      · cases found
        assumption
      · split at found
        · cases found
        · split at found
          · cases found
            exact absurd rfl attached
          · obtain ⟨others, later, found⟩ := bind_eq_ok.mp found
            cases found
            exact @ih _ others later attached

end Cluster

section Given

variable {flag : Flag} {value : Text} {item : Given}

theorem takeSwitch_eq_ok : takeSwitch flag = .ok item ↔ flag ≠ .help ∧ item = .switch flag := by
  unfold takeSwitch
  by_cases help : flag = .help
  · simp [help]
  · simp [help, eq_comm]

theorem field?_of_takeValue (taken : takeValue flag value = .ok item) :
    item.field? = flag.field? ∧ ∀ dir, item ≠ .base dir := by
  unfold takeValue at taken
  split at taken
  · cases taken
    exact ⟨rfl, by simp⟩
  · split at taken
    · rename_i depth
      split at taken <;> cases taken
      exact ⟨by rw [depth]; rfl, by simp⟩
    · cases taken
      exact ⟨rfl, by simp⟩

variable {cluster : Cluster} {given : Option Text} {items : List Given}

theorem mapM_takeSwitch {switches : List Flag} :
    switches.mapM takeSwitch = .ok items ↔ .help ∉ switches ∧ items = switches.map .switch := by
  induction switches generalizing items with
  | nil => simp [pure, Except.pure, eq_comm]
  | cons flag switches ih =>
      simp only [mapM_cons_eq_ok, takeSwitch_eq_ok, ih, List.mem_cons, not_or, List.map_cons]
      constructor
      · intro found
        obtain ⟨_, _, ⟨other, rfl⟩, ⟨free, rfl⟩, rfl⟩ := found
        exact ⟨⟨Ne.symm other, free⟩, rfl⟩
      · intro found
        obtain ⟨⟨other, free⟩, rfl⟩ := found
        exact ⟨_, _, ⟨Ne.symm other, rfl⟩, ⟨free, rfl⟩, rfl⟩

/-- What a cluster gives: something for each of its options, and no base directory. -/
theorem Cluster.given_spec (made : cluster.given given = .ok items)
    (takes : given ≠ none → cluster.last.takesValue = true) :
    Flag.help ∉ cluster.flags ∧ items.map Given.field? = cluster.flags.map Flag.field? ∧
      ∀ dir, .base dir ∉ items := by
  obtain ⟨switches, first, made⟩ := bind_eq_ok.mp made
  obtain ⟨helpless, rfl⟩ := mapM_takeSwitch.mp first
  have one : ∃ item, items = cluster.switches.map .switch ++ [item] ∧ cluster.last ≠ .help ∧
      item.field? = cluster.last.field? ∧ ∀ dir, item ≠ .base dir := by
    cases given with
    | none =>
        obtain ⟨item, taken, made⟩ := bind_eq_ok.mp made
        obtain ⟨other, rfl⟩ := takeSwitch_eq_ok.mp taken
        cases made
        exact ⟨_, rfl, other, rfl, by simp⟩
    | some value =>
        obtain ⟨item, taken, made⟩ := bind_eq_ok.mp made
        cases made
        refine ⟨item, rfl, ?_, field?_of_takeValue taken⟩
        intro help
        have absurdity := takes (by simp)
        rw [help] at absurdity
        cases absurdity
  obtain ⟨item, rfl, other, field, baseless⟩ := one
  refine ⟨by simp [Cluster.flags, helpless, Ne.symm other], ?_, ?_⟩
  · simp only [Cluster.flags, List.map_append, List.map_map, List.map_singleton, field]
    rfl
  · intro dir member
    rcases List.mem_append.mp member with member | member
    · obtain ⟨flag, -, same⟩ := List.mem_map.mp member
      cases same
    · exact baseless dir (List.mem_singleton.mp member).symm

end Given

end Arguments

end PathSearch
