import PathSearch.Command.Line
import PathSearch.Proofs.Command.Accepted
import PathSearch.Proofs.Text.Split

/-!
An option with its value attached, and the same option with the value in an argument of its own. They are read
alike where the value does not look like an option, since what stands before an option is read on its own.
-/

namespace PathSearch

namespace Arguments

def Content.append (first second : Content) : Content :=
  ⟨first.given ++ second.given, first.unused ++ second.unused⟩

/-- The tokens go on with an option. -/
def Opens (tokens : List Token) : Prop :=
  ∃ flag attached rest, tokens = .short flag attached :: rest ∨ tokens = .long flag attached :: rest

/-- What the tokens hold does not depend on what follows, if that goes on with an option: they are refused, or
they hold something that is put before what follows. -/
def Stands (known : List Flag) (awaits : Bool) (first : List Token) : Prop :=
  (∃ refusal, ∀ rest, Opens rest → content known awaits (first ++ rest) = .error refusal) ∨
    ∃ still made, ∀ rest, Opens rest →
      content known awaits (first ++ rest) = (content known still rest).map (Content.append made)

section Content

variable {known : List Flag} {awaits still : Bool} {first later rest : List Token} {token : Token} {text : Text}
  {cluster : Cluster} {items : List Given} {result : Except Refusal Content}

theorem map_empty : result.map (Content.append .empty) = result := by
  cases result <;> rfl

theorem bind_withGiven : (do return (← result).withGiven items) = result.map (Content.append ⟨items, []⟩) := by
  cases result <;> rfl

theorem bind_withUnused :
    (do return (← result).withUnused text) = result.map (Content.append ⟨[], [text]⟩) := by
  cases result <;> rfl

theorem content_separator :
    content known awaits (.separator :: rest) =
      (content known awaits rest).map
        (Content.append (if awaits then .empty else ⟨[], [separatorText]⟩)) := by
  cases awaits with
  | true => exact map_empty.symm
  | false => exact bind_withUnused

theorem content_unknown :
    content known awaits (.unknown text :: rest) =
      (content known awaits rest).map (Content.append ⟨[], [text]⟩) := by
  rw [content]
  exact bind_withUnused

theorem content_plain_unawaited :
    content known false (.plain text :: rest) =
      (content known false rest).map (Content.append ⟨[], [text]⟩) := by
  rw [content.eq_def]
  exact bind_withUnused

theorem content_plain_separator :
    content known true (.plain text :: .separator :: rest) =
      (content known false rest).map (Content.append ⟨[.base text], []⟩) := by
  rw [content.eq_def]
  exact bind_withGiven

theorem content_plain_awaited (apart : ∀ others, rest ≠ .separator :: others) :
    content known true (.plain text :: rest) =
      (content known false rest).map (Content.append ⟨[.base text], []⟩) := by
  rw [content.eq_def]
  simp only [if_true]
  exact bind_withGiven

theorem content_refused {refusal : Refusal} (found : clusterOf known token = .error refusal) :
    content known awaits (token :: rest) = .error refusal :=
  map_eq_error.mp (givens_refused found)

section Option

variable (found : clusterOf known token = .ok (some cluster))

include found

/-- An option with all that it needs. -/
theorem content_attached (whole : ¬ (cluster.last.takesValue = true ∧ cluster.attached = none)) :
    content known awaits (token :: rest) =
      match cluster.given cluster.attached with
      | .error refusal => .error refusal
      | .ok items => (content known awaits rest).map (Content.append ⟨items, []⟩) := by
  rw [content_option found, if_neg (by simpa using whole)]
  cases cluster.given cluster.attached with
  | error refusal => rfl
  | ok items => exact bind_withGiven

variable (takes : cluster.last.takesValue = true) (bare : cluster.attached = none)

include takes bare

theorem content_apart :
    content known awaits (token :: .plain text :: rest) =
      match cluster.given (some text) with
      | .error refusal => .error refusal
      | .ok items => (content known awaits rest).map (Content.append ⟨items, []⟩) := by
  rw [content_option found, if_pos (by simp [takes, bare])]
  simp only
  cases cluster.given (some text) with
  | error refusal => rfl
  | ok items => exact bind_withGiven

theorem content_lacking (none : ∀ text others, rest ≠ .plain text :: others) :
    content known awaits (token :: rest) = .error (.missingValue cluster.last) := by
  rw [content_option found, if_pos (by simp [takes, bare])]
  split
  · rename_i value others
    exact absurd rfl (none value others)
  · rfl

end Option

theorem Opens.append_ne_cons (opens : Opens rest) (plain : ∀ flag attached, token ≠ .short flag attached)
    (still : ∀ flag attached, token ≠ .long flag attached) (apart : ∀ others, first ≠ token :: others)
    (others : List Token) : first ++ rest ≠ token :: others := by
  intro same
  cases first with
  | nil =>
      obtain ⟨flag, attached, more, rfl | rfl⟩ := opens
      · exact plain flag attached (List.cons.inj same).1.symm
      · exact still flag attached (List.cons.inj same).1.symm
  | cons head first => exact apart first (by rw [(List.cons.inj same).1])

theorem Stands.of_step (made : Content) (stands : Stands known still later)
    (step : ∀ rest, Opens rest → content known awaits (first ++ rest) =
      (content known still (later ++ rest)).map (Content.append made)) : Stands known awaits first := by
  rcases stands with ⟨refusal, refused⟩ | ⟨onward, more, read⟩
  · refine .inl ⟨refusal, fun rest opens => ?_⟩
    rw [step rest opens, refused rest opens]
    rfl
  · refine .inr ⟨onward, made.append more, fun rest opens => ?_⟩
    rw [step rest opens, read rest opens]
    cases content known onward rest with
    | error refusal => rfl
    | ok last => simp [Except.map, Content.append]

theorem stands_of_option (option : clusterOf known token ≠ .ok none)
    (shorter : ∀ later : List Token, later.length ≤ rest.length → Stands known awaits later) :
    Stands known awaits (token :: rest) := by
  cases found : clusterOf known token with
  | error refusal => exact .inl ⟨refusal, fun _ _ => content_refused found⟩
  | ok read =>
      cases read with
      | none => exact absurd found option
      | some cluster =>
          by_cases lacking : cluster.last.takesValue = true ∧ cluster.attached = none
          · obtain ⟨takes, bare⟩ := lacking
            by_cases valued : ∃ text others, rest = .plain text :: others
            · obtain ⟨text, others, rfl⟩ := valued
              cases made : cluster.given (some text) with
              | error refusal =>
                  refine .inl ⟨refusal, fun _ _ => ?_⟩
                  rw [List.cons_append, List.cons_append, content_apart found takes bare, made]
              | ok items =>
                  refine (shorter others (by simp)).of_step ⟨items, []⟩ fun _ _ => ?_
                  rw [List.cons_append, List.cons_append, content_apart found takes bare, made]
            · refine .inl ⟨.missingValue cluster.last, fun more opens => ?_⟩
              refine content_lacking found takes bare fun text => opens.append_ne_cons (by simp) (by simp) ?_
              exact fun others same => valued ⟨text, others, same⟩
          · cases made : cluster.given cluster.attached with
            | error refusal =>
                refine .inl ⟨refusal, fun _ _ => ?_⟩
                rw [List.cons_append, content_attached found lacking, made]
            | ok items =>
                refine (shorter rest (Nat.le_refl _)).of_step ⟨items, []⟩ fun _ _ => ?_
                rw [List.cons_append, content_attached found lacking, made]

/-- What stands before an option is read on its own. -/
theorem stands (known : List Flag) (awaits : Bool) (first : List Token) : Stands known awaits first := by
  induction size : first.length using Nat.strongRecOn generalizing awaits first with
  | ind count ih =>
      cases first with
      | nil => exact .inr ⟨awaits, .empty, fun _ _ => map_empty.symm⟩
      | cons token first =>
          rw [List.length_cons] at size
          have shorter : ∀ awaits (later : List Token), later.length ≤ first.length → Stands known awaits later :=
            fun awaits later bound => ih later.length (by omega) awaits later rfl
          cases token with
          | short flag attached =>
              exact stands_of_option (clusterOf_ne_none (.inl rfl)) (shorter awaits)
          | long flag attached =>
              exact stands_of_option (clusterOf_ne_none (.inr rfl)) (shorter awaits)
          | separator =>
              exact (shorter awaits first (Nat.le_refl _)).of_step _ fun _ _ => content_separator
          | unknown text =>
              exact (shorter awaits first (Nat.le_refl _)).of_step _ fun _ _ => content_unknown
          | plain text =>
              cases awaits with
              | false =>
                  exact (shorter false first (Nat.le_refl _)).of_step _ fun _ _ => content_plain_unawaited
              | true =>
                  by_cases parted : ∃ others, first = .separator :: others
                  · obtain ⟨others, rfl⟩ := parted
                    exact (shorter false others (by simp)).of_step _ fun _ _ => content_plain_separator
                  · refine (shorter false first (Nat.le_refl _)).of_step _ fun rest opens =>
                      content_plain_awaited (opens.append_ne_cons (by simp) (by simp) ?_)
                    exact fun others same => parted ⟨others, same⟩

section Following

variable {more : List Token} (opens : Opens rest) (also : Opens more)

include opens also

theorem content_congr (alike : ∀ still, content known still rest = content known still more) :
    content known awaits (first ++ rest) = content known awaits (first ++ more) := by
  rcases stands known awaits first with ⟨refusal, refused⟩ | ⟨still, made, read⟩
  · rw [refused rest opens, refused more also]
  · rw [read rest opens, read more also, alike]

theorem content_of_refused {refusal : Refusal} {whole : Content}
    (accepted : content known awaits (first ++ rest) = .ok whole)
    (refused : ∀ still, content known still more = .error refusal) :
    content known awaits (first ++ more) = .error refusal := by
  rcases stands known awaits first with ⟨other, failed⟩ | ⟨still, made, read⟩
  · cases (failed rest opens).symm.trans accepted
  · rw [read more also, refused]
    rfl

end Following

end Content

section Tokens

variable {known : List Flag} {before after : List Text} {written value : Text} {flag : Flag} {first : Token}

theorem tokens_cons (other : written ≠ separatorText) (read : token known written = .ok first) :
    tokens known (written :: after) = (tokens known after).map (first :: ·) := by
  rw [tokens, if_neg other, read]
  cases tokens known after <;> rfl

theorem tokens_append (inFront : separatorText ∉ before) :
    tokens known (before ++ after) =
      before.mapM (token known) >>= fun first => (tokens known after).map (first ++ ·) := by
  induction before with
  | nil =>
      rw [List.mapM_nil, List.nil_append]
      cases tokens known after <;> rfl
  | cons written before ih =>
      simp only [List.mem_cons, not_or] at inFront
      obtain ⟨other, inFront⟩ := inFront
      rw [List.cons_append, tokens, if_neg (Ne.symm other), List.mapM_cons, ih inFront]
      cases token known written with
      | error refusal => rfl
      | ok first =>
          cases before.mapM (token known) with
          | error refusal => rfl
          | ok others => cases tokens known after <;> rfl

theorem token_plain (plain : written.head? ≠ some '-') : token known written = .ok (.plain written) := by
  unfold token
  split
  · exact absurd rfl plain
  · exact absurd rfl plain
  · rfl

theorem token_of_wordToken (flag : Flag) (tail : Text) :
    token known (flag.word.toList ++ tail) = longToken known (flag.word.toList ++ tail) := by
  cases flag <;> rfl

theorem token_word (word : Flag.ofWord? known flag.word.toList = some flag) :
    token known flag.word.toList = .ok (.long flag none) := by
  have whole : Text.splitFirst? '=' flag.word.toList = none := by
    cases flag <;> decide
  have same := @token_of_wordToken known flag []
  rw [List.append_nil] at same
  rw [same, longToken, whole]
  simp only [word]

theorem token_attached (word : Flag.ofWord? known flag.word.toList = some flag) (value : Text) :
    token known (flag.word.toList ++ '=' :: value) = .ok (.long flag (some value)) := by
  have parted : Text.splitFirst? '=' (flag.word.toList ++ '=' :: value) = some (flag.word.toList, value) := by
    rw [Text.splitFirst?_eq_some_iff]
    refine ⟨rfl, ?_⟩
    cases flag <;> decide
  rw [token_of_wordToken, longToken, parted]
  simp only [word]

end Tokens

/-- The argument is the option and nothing else. -/
structure Spells (known : List Flag) (flag : Flag) (written : Text) : Prop where
  other : written ≠ separatorText
  read : token known written = .ok (.short flag none) ∨ token known written = .ok (.long flag none)

section Read

variable {known : List Flag} {flag : Flag} {before after : List Text} {written value : Text} {rest : List Token}
  {token : Token}

theorem Spells.exists_token (spells : Spells known flag written) :
    ∃ token, Arguments.token known written = .ok token ∧
      clusterOf known token = .ok (some ⟨[], flag, none⟩) ∧ ∀ rest, Opens (token :: rest) := by
  rcases spells.read with read | read
  · exact ⟨_, read, rfl, fun rest => ⟨flag, none, rest, .inl rfl⟩⟩
  · exact ⟨_, read, rfl, fun rest => ⟨flag, none, rest, .inr rfl⟩⟩

theorem read_append (inFront : separatorText ∉ before) :
    read known (before ++ after) =
      before.mapM (Arguments.token known) >>= fun first =>
        tokens known after >>= fun rest => content known true (first ++ rest) := by
  rw [read, tokens_append inFront]
  cases before.mapM (Arguments.token known) with
  | error refusal => rfl
  | ok first => cases tokens known after <;> rfl

theorem attached_ne_separatorText : flag.word.toList ++ '=' :: value ≠ separatorText := by
  intro same
  have equals : '=' ∈ separatorText := by simp [← same]
  revert equals
  decide

variable (takes : flag.takesValue = true)

include takes

theorem content_alike (found : clusterOf known token = .ok (some ⟨[], flag, none⟩)) (awaits : Bool) :
    content known awaits (token :: .plain value :: rest) =
      content known awaits (.long flag (some value) :: rest) := by
  have joined : clusterOf known (.long flag (some value)) = .ok (some ⟨[], flag, some value⟩) := by
    rw [clusterOf, if_pos takes]
  rw [content_apart found takes rfl, content_attached joined (by simp)]
  rfl

variable (word : Flag.ofWord? known flag.word.toList = some flag) (spells : Spells known flag written)
  (inFront : separatorText ∉ before)

include word spells inFront

/-- A value that does not look like an option may stand in an argument of its own. -/
theorem read_apart (plain : value.head? ≠ some '-') :
    read known (before ++ written :: value :: after) =
      read known (before ++ (flag.word.toList ++ '=' :: value) :: after) := by
  obtain ⟨token, option, found, opens⟩ := spells.exists_token
  have another : value ≠ separatorText := by
    rintro rfl
    exact plain rfl
  rw [read_append inFront, read_append inFront, tokens_cons spells.other option,
    tokens_cons another (token_plain plain), tokens_cons attached_ne_separatorText (token_attached word value)]
  congr
  funext first
  cases tokens known after with
  | error refusal => rfl
  | ok rest =>
      exact content_congr (opens _) ⟨flag, some value, rest, .inr rfl⟩ (content_alike takes found)

/-- A value that is taken for an option is missing, if it stands in an argument of its own. -/
theorem read_lacking {whole : Content} (another : value ≠ separatorText)
    (hidden : Arguments.token known value = .ok token) (notPlain : ∀ text, token ≠ .plain text)
    (accepted : read known (before ++ (flag.word.toList ++ '=' :: value) :: after) = .ok whole) :
    read known (before ++ written :: value :: after) = .error (.missingValue flag) := by
  obtain ⟨option, spelled, found, opens⟩ := spells.exists_token
  rw [read_append inFront, tokens_cons attached_ne_separatorText (token_attached word value)] at accepted
  obtain ⟨first, mapped, accepted⟩ := bind_eq_ok.mp accepted
  obtain ⟨_, split, accepted⟩ := bind_eq_ok.mp accepted
  obtain ⟨rest, later, rfl⟩ := map_eq_ok.mp split
  have lacking : ∀ awaits, content known awaits (option :: token :: rest) = .error (.missingValue flag) :=
    fun awaits => content_lacking found takes rfl fun text others same => notPlain text (List.cons.inj same).1
  rw [read_append inFront, mapped, tokens_cons spells.other spelled, tokens_cons another hidden, later]
  exact content_of_refused ⟨flag, some value, rest, .inr rfl⟩ (opens _) accepted lacking

end Read

end Arguments

namespace CommandLine

open Arguments

/-- A whole number in decimal digits, with a hyphen before it if it is negative. -/
def IsNumeral (written : Text) : Prop :=
  ∃ digits : Text, digits ≠ [] ∧ (∀ digit ∈ digits, digit.isDigit = true) ∧
    (written = digits ∨ written = '-' :: digits)

theorem isNumeral_toString (number : Int) :
    IsNumeral (ToString.toString number).toList ∧
      ((ToString.toString number).toList.head? = some '-' ↔ number < 0) := by
  have digits : ∀ (count : Nat) (digit : Char), digit ∈ Nat.toDigits 10 count → digit.isDigit = true :=
    fun count digit member => Nat.isDigit_of_mem_toDigits (by decide) (by decide) member
  cases number with
  | ofNat count =>
      have shown : (ToString.toString (Int.ofNat count)).toList = Nat.toDigits 10 count := by
        simp [ToString.toString, Int.repr, Nat.repr]
      rw [shown]
      refine ⟨⟨_, Nat.toDigits_ne_nil, digits count, .inl rfl⟩, iff_of_false ?_ (by simp)⟩
      intro first
      cases digits count '-' (List.mem_of_mem_head? first)
  | negSucc count =>
      have shown : (ToString.toString (Int.negSucc count)).toList = '-' :: Nat.toDigits 10 (count + 1) := by
        simp [ToString.toString, Int.repr, Nat.repr]
      rw [shown]
      exact ⟨⟨_, Nat.toDigits_ne_nil, digits _, .inr rfl⟩, iff_of_true rfl (Int.negSucc_lt_zero count)⟩

theorem IsNumeral.eq_cons {numeral : Text} (decimal : IsNumeral numeral) :
    ∃ digit digits, digit.isDigit = true ∧ (∀ other ∈ digits, other.isDigit = true) ∧
      (numeral = digit :: digits ∨ numeral = '-' :: digit :: digits) := by
  obtain ⟨all, some, decimal, shape⟩ := decimal
  obtain ⟨digit, digits, rfl⟩ := List.exists_cons_of_ne_nil some
  obtain ⟨first, later⟩ := List.forall_mem_cons.mp decimal
  exact ⟨digit, digits, first, later, shape⟩

/-- A negative number looks like an option. -/
theorem exists_token_negative {digit : Char} {digits : Text} (first : digit.isDigit = true)
    (later : ∀ other ∈ digits, other.isDigit = true) (known : List Flag) :
    ∃ token, Arguments.token known ('-' :: digit :: digits) = .ok token ∧ ∀ text, token ≠ .plain text := by
  have decimal : ∀ other ∈ digit :: digits, other.isDigit = true := List.forall_mem_cons.mpr ⟨first, later⟩
  have closed : ' ' ∉ '-' :: digit :: digits := by
    intro member
    rcases List.mem_cons.mp member with same | member
    · cases same
    · cases decimal ' ' member
  have single : digit ≠ '-' := by
    rintro rfl
    cases first
  refine ⟨shortToken known digit digits, ?_, ?_⟩
  · unfold Arguments.token
    split
    · rename_i same
      exact absurd (List.cons.inj (List.cons.inj same).2).1 single
    · rename_i same
      obtain ⟨-, same⟩ := List.cons.inj same
      obtain ⟨rfl, rfl⟩ := List.cons.inj same
      rfl
    · rename_i other
      exact absurd rfl (other digit digits)
  · intro text
    unfold shortToken
    split
    · rw [unmatched, if_neg (by simpa using closed)]
      simp
    · split <;> simp

theorem spells_depth {written : Text} (spelling : written ∈ [Flag.maxDepth.word.toList, ['-', 'd']]) :
    Spells Flag.all .maxDepth written ∧ Spells Flag.marking .maxDepth written := by
  simp only [List.mem_cons, List.not_mem_nil, or_false] at spelling
  rcases spelling with rfl | rfl
  · exact ⟨⟨by decide, .inr (token_word (by decide))⟩, ⟨by decide, .inr (token_word (by decide))⟩⟩
  · exact ⟨⟨by decide, .inl rfl⟩, ⟨by decide, .inl rfl⟩⟩

/-- A depth limit that is accepted behind an equals sign is read alike in an argument of its own, unless it is
negative: then the option is said to lack its value. -/
theorem read_depth_apart {before after : List Text} {numeral : Text} {line : CommandLine}
    (decimal : IsNumeral numeral) (inFront : separatorText ∉ before)
    (accepted : read (before ++ (Flag.maxDepth.word.toList ++ '=' :: numeral) :: after) = .ok line) :
    (∀ written ∈ [Flag.maxDepth.word.toList, ['-', 'd']],
      read (before ++ written :: numeral :: after) =
        if numeral.head? = some '-' then .error (.missingValue .maxDepth) else .ok line) ∧
    ∀ number : Int, IsNumeral (ToString.toString number).toList ∧
      ((ToString.toString number).toList.head? = some '-' ↔ number < 0) := by
  refine ⟨fun written spelling => ?_, isNumeral_toString⟩
  obtain ⟨spells, marks⟩ := spells_depth spelling
  obtain ⟨digit, digits, first, later, shape⟩ := decimal.eq_cons
  have single : digit ≠ '-' := by
    rintro rfl
    cases first
  rcases shape with rfl | rfl
  · have plain : (digit :: digits).head? ≠ some '-' := by simpa using single
    rw [if_neg plain, ← accepted, read, read, read_apart rfl (by decide) spells inFront plain,
      read_apart rfl (by decide) marks inFront plain]
  · have another : '-' :: digit :: digits ≠ separatorText := by
      intro same
      exact single (List.cons.inj (List.cons.inj same).2).1
    obtain ⟨token, hidden, notPlain⟩ := exists_token_negative first later Flag.all
    obtain ⟨whole, known, -⟩ := bind_eq_ok.mp accepted
    rw [if_pos (List.head?_cons ..), read, read_lacking rfl (by decide) spells inFront another hidden notPlain known]
    rfl

/-- Between other arguments, and a negative limit. -/
theorem read_depth_apart_three :
    let line : CommandLine := ⟨[.switch .verbose, .depth 3, .base ['s']], [.baseDir, .maxDepth]⟩
    (read [['-', 'v'], Flag.maxDepth.word.toList ++ ['=', '3'], ['s']] = .ok line ∧
      read [['-', 'v'], Flag.maxDepth.word.toList, ['3'], ['s']] = .ok line) ∧
    (∃ line, read [['-', 'v'], Flag.maxDepth.word.toList ++ ['=', '-', '3'], ['s']] = .ok line) ∧
      read [['-', 'v'], ['-', 'd'], ['-', '3'], ['s']] = .error (.missingValue .maxDepth) := by
  intro line
  have digits : ∀ digit ∈ ['3'], digit.isDigit = true := List.forall_mem_singleton.mpr rfl
  have three : IsNumeral ['3'] := ⟨['3'], by decide, digits, .inl rfl⟩
  have negative : IsNumeral ['-', '3'] := ⟨['3'], by decide, digits, .inr rfl⟩
  have accepted : read ([['-', 'v']] ++ (Flag.maxDepth.word.toList ++ '=' :: ['3']) :: [['s']]) =
      .ok line := by decide +kernel
  have signed : read ([['-', 'v']] ++ (Flag.maxDepth.word.toList ++ '=' :: ['-', '3']) :: [['s']]) =
      .ok ⟨[.switch .verbose, .depth (-3), .base ['s']], [.baseDir, .maxDepth]⟩ := by decide +kernel
  exact ⟨⟨accepted, (read_depth_apart three (by decide) accepted).1 _ (by simp)⟩, ⟨_, signed⟩,
    (read_depth_apart negative (by decide) signed).1 _ (by simp)⟩

/-- A negative limit is one where it is attached, and an option where it is not. -/
theorem not_read_depth_apart :
    read [Flag.maxDepth.word.toList ++ ['=', '-', '1']] = .ok ⟨[.depth (-1)], [.maxDepth]⟩ ∧
      read [Flag.maxDepth.word.toList, ['-', '1']] = .error (.missingValue .maxDepth) ∧
        read [['-', 'd'], ['-', '1']] = .error (.missingValue .maxDepth) := by
  refine ⟨by decide +kernel, by decide +kernel, by decide +kernel⟩

end CommandLine

end PathSearch
