import PathSearch.Proofs.Command.Seen

/-! What a command line gives that is accepted, argument by argument. -/

namespace PathSearch.Arguments

/-- The options in an argument, all being known, and the fields that they stand above. -/
def Gives (token : Token) (field : Field) : Prop :=
  ∃ cluster, clusterOf Flag.all token = .ok (some cluster) ∧ some field ∈ cluster.flags.map Flag.field?

theorem gives_iff {token : Token} {cluster : Cluster} {field : Field}
    (found : clusterOf Flag.all token = .ok (some cluster)) :
    Gives token field ↔ some field ∈ cluster.flags.map Flag.field? := by
  constructor
  · intro gives
    obtain ⟨again, same, member⟩ := gives
    rw [found] at same
    cases same
    exact member
  · exact fun member => ⟨cluster, found, member⟩

theorem not_gives_of_bare {token : Token} (bare : clusterOf Flag.all token = .ok none) (field : Field) :
    ¬ Gives token field := by
  rintro ⟨_, found, -⟩
  cases bare.symm.trans found

/-- What a reading gives, whatever it leaves unused. -/
def givens (known : List Flag) (awaitsBase : Bool) (tokens : List Token) : Except Refusal (List Given) :=
  (content known awaitsBase tokens).map Content.given

section Content

variable {known : List Flag} {awaits : Bool} {token : Token} {rest : List Token} {text : Text}
  {cluster : Cluster} {items : List Given}

theorem content_option (found : clusterOf known token = .ok (some cluster)) :
    content known awaits (token :: rest) =
      if cluster.last.takesValue && cluster.attached.isNone then
        match rest with
        | .plain value :: rest => do
            let given ← cluster.given (some value)
            return (← content known awaits rest).withGiven given
        | _ => .error (.missingValue cluster.last)
      else do
        let given ← cluster.given cluster.attached
        return (← content known awaits rest).withGiven given := by
  cases token with
  | short flag attached =>
      rw [content, found]
      rfl
      all_goals simp
  | long flag attached =>
      rw [content, found]
      rfl
      all_goals simp
  | _ => cases found

theorem mem_flags_of_clusterOf {flag : Flag} {attached : Option Text}
    (found : clusterOf known (.short flag attached) = .ok (some cluster)) : flag ∈ cluster.flags := by
  cases attached with
  | none =>
      cases found
      simp [Cluster.flags]
  | some text =>
      obtain ⟨read, inner, found⟩ := bind_eq_ok.mp found
      cases found
      exact mem_flags_of_cluster inner

theorem attached_of_clusterOf (found : clusterOf known token = .ok (some cluster))
    (attached : cluster.attached ≠ none) : cluster.last.takesValue = true := by
  unfold clusterOf at found
  split at found
  · cases found
    exact absurd rfl attached
  · obtain ⟨read, one, found⟩ := bind_eq_ok.mp found
    cases found
    exact attached_of_cluster one attached
  · cases found
    exact absurd rfl attached
  · split at found
    · cases found
      assumption
    · cases found
  · cases found

@[simp]
theorem givens_separator : givens known awaits (.separator :: rest) = givens known awaits rest := by
  cases awaits with
  | true => rfl
  | false =>
      rw [givens, givens, content]
      cases content known false rest <;> rfl

@[simp]
theorem givens_unknown : givens known awaits (.unknown text :: rest) = givens known awaits rest := by
  rw [givens, givens, content]
  cases content known awaits rest <;> rfl

@[simp]
theorem givens_plain_unawaited : givens known false (.plain text :: rest) = givens known false rest := by
  rw [givens, givens, content.eq_def]
  simp only
  cases content known false rest <;> rfl

/-- A separator that the base directory takes with it is not missed, since it gives nothing. -/
@[simp]
theorem givens_plain_awaited :
    givens known true (.plain text :: rest) = (givens known false rest).map (.base text :: ·) := by
  rw [givens, content.eq_def]
  simp only [if_true]
  split
  · rename_i later
    rw [givens_separator, givens]
    cases content known false later <;> rfl
  · rw [givens]
    cases content known false rest <;> rfl

theorem givens_switches (found : clusterOf known token = .ok (some cluster))
    (whole : ¬ (cluster.last.takesValue = true ∧ cluster.attached = none))
    (made : cluster.given cluster.attached = .ok items) :
    givens known awaits (token :: rest) = (givens known awaits rest).map (items ++ ·) := by
  rw [givens, content_option found, if_neg (by simpa using whole), made, givens]
  cases content known awaits rest <;> rfl

theorem givens_valued (found : clusterOf known token = .ok (some cluster))
    (takes : cluster.last.takesValue = true) (bare : cluster.attached = none)
    (made : cluster.given (some text) = .ok items) :
    givens known awaits (token :: .plain text :: rest) = (givens known awaits rest).map (items ++ ·) := by
  rw [givens, content_option found, if_pos (by simp [takes, bare]), givens]
  simp only [made]
  cases content known awaits rest <;> rfl

theorem givens_refused {refusal : Refusal} (found : clusterOf known token = .error refusal) :
    givens known awaits (token :: rest) = .error refusal := by
  cases token with
  | short flag attached =>
      rw [givens, content, found]
      rfl
      all_goals simp
  | long flag attached =>
      rw [givens, content, found]
      rfl
      all_goals simp
  | _ => cases found

end Content

/-- Arguments of which all are used, and what they give. -/
inductive Accepts : Bool → List Token → List Given → Prop
  | done (awaits : Bool) : Accepts awaits [] []
  | separator {rest : List Token} {given : List Given} (later : Accepts true rest given) :
      Accepts true (.separator :: rest) given
  | base (text : Text) {rest : List Token} {given : List Given} (later : Accepts false rest given) :
      Accepts true (.plain text :: rest) (.base text :: given)
  | basePair (text : Text) {rest : List Token} {given : List Given} (later : Accepts false rest given) :
      Accepts true (.plain text :: .separator :: rest) (.base text :: given)
  | switches {awaits : Bool} {token : Token} {rest : List Token} {items given : List Given}
      {cluster : Cluster} (found : clusterOf Flag.all token = .ok (some cluster))
      (whole : ¬ (cluster.last.takesValue = true ∧ cluster.attached = none))
      (made : cluster.given cluster.attached = .ok items) (later : Accepts awaits rest given) :
      Accepts awaits (token :: rest) (items ++ given)
  | valued {awaits : Bool} {token : Token} {text : Text} {rest : List Token} {items given : List Given}
      {cluster : Cluster} (found : clusterOf Flag.all token = .ok (some cluster))
      (takes : cluster.last.takesValue = true) (bare : cluster.attached = none)
      (made : cluster.given (some text) = .ok items) (later : Accepts awaits rest given) :
      Accepts awaits (token :: .plain text :: rest) (items ++ given)

theorem eq_of_withGiven {first second : Content} {items : List Given}
    (same : first.withGiven items = second) :
    second.given = items ++ first.given ∧ second.unused = first.unused := by
  subst same
  exact ⟨rfl, rfl⟩

theorem accepts_of_option {awaits : Bool} {token : Token} {rest : List Token} {cluster : Cluster}
    {given : List Given} (found : clusterOf Flag.all token = .ok (some cluster))
    (read : content Flag.all awaits (token :: rest) = .ok ⟨given, []⟩)
    (ih : ∀ later, later.length ≤ rest.length → ∀ {given},
      content Flag.all awaits later = .ok ⟨given, []⟩ → Accepts awaits later given) :
    Accepts awaits (token :: rest) given := by
  rw [content_option found] at read
  split at read
  · rename_i alone
    simp only [Bool.and_eq_true, Option.isNone_iff_eq_none] at alone
    split at read
    · rename_i text later
      obtain ⟨items, made, read⟩ := bind_eq_ok.mp read
      obtain ⟨⟨others, unused⟩, more, read⟩ := bind_eq_ok.mp read
      obtain ⟨shape, none⟩ := eq_of_withGiven (Except.ok.inj read)
      simp only at shape none
      subst none
      rw [shape]
      exact .valued found alone.1 alone.2 made (ih later (by simp) more)
    · cases read
  · rename_i whole
    obtain ⟨items, made, read⟩ := bind_eq_ok.mp read
    obtain ⟨⟨others, unused⟩, more, read⟩ := bind_eq_ok.mp read
    obtain ⟨shape, none⟩ := eq_of_withGiven (Except.ok.inj read)
    simp only at shape none
    subst none
    rw [shape]
    exact .switches found (by simpa using whole) made (ih rest (Nat.le_refl _) more)

theorem clusterOf_ne_none {known : List Flag} {flag : Flag} {attached : Option Text} {token : Token}
    (option : token = .short flag attached ∨ token = .long flag attached) :
    clusterOf known token ≠ .ok none := by
  intro made
  rcases option with rfl | rfl
  · cases attached with
    | none => cases made
    | some text =>
        obtain ⟨read, -, made⟩ := bind_eq_ok.mp made
        cases made
  · cases attached with
    | none => cases made
    | some value =>
        rw [clusterOf] at made
        split at made <;> cases made

theorem exists_cluster {flag : Flag} {attached : Option Text} {token : Token} {awaits : Bool}
    {rest : List Token} {read : Content} (option : token = .short flag attached ∨ token = .long flag attached)
    (found : content Flag.all awaits (token :: rest) = .ok read) :
    ∃ cluster, clusterOf Flag.all token = .ok (some cluster) := by
  cases made : clusterOf Flag.all token with
  | error refusal =>
      have refused := @givens_refused _ awaits _ rest _ made
      rw [givens, found] at refused
      cases refused
  | ok cluster =>
      cases cluster with
      | some cluster => exact ⟨cluster, rfl⟩
      | none => exact absurd made (clusterOf_ne_none option)

theorem accepts_of_content {awaits : Bool} {tokens : List Token} {given : List Given}
    (read : content Flag.all awaits tokens = .ok ⟨given, []⟩) : Accepts awaits tokens given := by
  induction size : tokens.length using Nat.strongRecOn generalizing awaits tokens given with
  | ind count ih =>
      cases tokens with
      | nil =>
          cases read
          exact .done awaits
      | cons token rest =>
          have shorter : ∀ later, later.length ≤ rest.length → ∀ {awaits given},
              content Flag.all awaits later = .ok ⟨given, []⟩ → Accepts awaits later given := by
            intro later bound awaits given more
            rw [List.length_cons] at size
            exact ih later.length (by omega) more rfl
          have ofOption : ∀ flag attached, token = .short flag attached ∨ token = .long flag attached →
              Accepts awaits (token :: rest) given := by
            intro flag attached option
            obtain ⟨cluster, found⟩ := exists_cluster option read
            exact accepts_of_option found read fun later bound {_} => shorter later bound
          cases token with
          | short flag attached => exact ofOption flag attached (.inl rfl)
          | long flag attached => exact ofOption flag attached (.inr rfl)
          | separator =>
              cases awaits with
              | true => exact .separator (shorter rest (Nat.le_refl _) read)
              | false =>
                  obtain ⟨later, -, read⟩ := bind_eq_ok.mp read
                  cases read
          | unknown text =>
              obtain ⟨later, -, read⟩ := bind_eq_ok.mp read
              cases read
          | plain text =>
              rw [content.eq_def] at read
              cases awaits with
              | true =>
                  simp only [if_true] at read
                  split at read
                  · rename_i others
                    obtain ⟨⟨later, unused⟩, more, read⟩ := bind_eq_ok.mp read
                    cases read
                    exact .basePair text (shorter others (by simp) more)
                  · obtain ⟨⟨later, unused⟩, more, read⟩ := bind_eq_ok.mp read
                    cases read
                    exact .base text (shorter rest (Nat.le_refl _) more)
              | false =>
                  obtain ⟨later, -, read⟩ := bind_eq_ok.mp read
                  cases read

/-- The fields that are given are those of the options that the arguments hold. -/
theorem fields_of_accepts {awaits : Bool} {tokens : List Token} {given : List Given}
    (accepts : Accepts awaits tokens given) {field : Field} (other : field ≠ .baseDir) :
    some field ∈ given.map Given.field? ↔ ∃ token ∈ tokens, Gives token field := by
  have plain : ∀ text, ¬ Gives (.plain text) field := fun text => not_gives_of_bare rfl field
  have separator : ¬ Gives .separator field := not_gives_of_bare rfl field
  induction accepts with
  | done => simp
  | separator later ih => simp [ih, separator]
  | base text later ih => simp [ih, Given.field?, other, plain]
  | basePair text later ih => simp [ih, Given.field?, other, plain, separator]
  | switches found whole made later ih =>
      have same := (Cluster.given_spec made (attached_of_clusterOf found)).2.1
      rw [List.map_append, List.mem_append, same, ← gives_iff found]
      simp [ih]
  | valued found takes bare made later ih =>
      have same := (Cluster.given_spec made fun _ => takes).2.1
      rw [List.map_append, List.mem_append, same, ← gives_iff found]
      simp [ih, plain]

end PathSearch.Arguments
