import PathSearch.Proofs.Command.Accepted

/-!
What the marking reading makes of an accepted command line. It sees what the options give, but for those that
share an argument with a leading `-v`; it takes what is left over of such an argument for the base directory;
and a `v` behind another letter ends it.
-/

namespace PathSearch.Arguments

/-- An argument that starts with `-v`, and may go on with other options. -/
def LedByVerbose (token : Token) : Prop := ∃ attached, token = .short .verbose attached

/-- An argument that starts with another letter, which has to be `-0`, and goes on to a `v`. -/
def Breaks (token : Token) : Prop :=
  ∃ flag attached cluster, flag ≠ .verbose ∧ token = .short flag attached ∧
    clusterOf Flag.all token = .ok (some cluster) ∧ .verbose ∈ cluster.flags

/-- An argument that starts with `-v` and has a blank in it, or an option that takes the next argument for
its value. -/
def Strays (token : Token) : Prop :=
  ∃ attached cluster, token = .short .verbose attached ∧ clusterOf Flag.all token = .ok (some cluster) ∧
    ((cluster.last.takesValue = true ∧ cluster.attached = none) ∨ ∃ text ∈ attached, ' ' ∈ text)

/-- What the marking reading makes of an option: what it marks by it, and whether it still awaits the base
directory then. -/
structure Marked (token : Token) (awaits : Bool) (marks : List Given) (after : Bool) : Prop where
  fields : ∀ field, field ≠ .baseDir →
    (some field ∈ marks.map Given.field? ↔ ¬ LedByVerbose token ∧ Gives token field)
  base : (∃ dir, .base dir ∈ marks) ↔ awaits = true ∧ Strays token
  after : after = true ↔ awaits = true ∧ ¬ Strays token

section Option

variable {token other : Token} {cluster : Cluster} {given : Option Text} {items : List Given}
  (found : clusterOf Flag.all token = .ok (some cluster))
  (made : cluster.given given = .ok items) (takes : given ≠ none → cluster.last.takesValue = true)

include found made takes

theorem marked_of_marking (awaits : Bool) (plain : ¬ LedByVerbose token) :
    Marked token awaits items awaits := by
  obtain ⟨-, fields, baseless⟩ := Cluster.given_spec made takes
  have settled : ¬ Strays token := fun ⟨attached, _, led, _⟩ => plain ⟨attached, led⟩
  refine ⟨?_, ?_, by simp [settled]⟩
  · intro field _
    rw [fields, gives_iff found]
    simp [plain]
  · exact iff_of_false (fun ⟨dir, member⟩ => baseless dir member) (by simp [settled])

/-- An argument that starts with a marking option is read alike, unless it breaks the reading off. -/
theorem clusterOf_marking (seen : Seen token other) :
    (Breaks token ∧ ∃ refusal, other = token ∧ clusterOf Flag.marking token = .error refusal) ∨
      (¬ Breaks token ∧ ((other = token ∧ ¬ LedByVerbose token ∧
          clusterOf Flag.marking token = .ok (some cluster)) ∨
        (∃ flag written, flag ∉ Flag.marking ∧ token = .long flag none ∧ other = .unknown written) ∨
        ∃ attached written, token = .short .verbose attached ∧ other = unmatched written ∧
          (' ' ∈ written ↔ ∃ text ∈ attached, ' ' ∈ text))) := by
  obtain ⟨helpless, -, -⟩ := Cluster.given_spec made takes
  cases seen with
  | plain text => cases found
  | separator => cases found
  | unknown text => cases found
  | @short flag marking attached =>
      have apart : flag ≠ .verbose := fun same => Flag.verbose_notMem_marking (same ▸ marking)
      have unled : ¬ LedByVerbose (.short flag attached) := by
        intro led
        obtain ⟨_, same⟩ := led
        cases same
        exact apart rfl
      have breaks : Breaks (.short flag attached) ↔ .verbose ∈ cluster.flags := by
        constructor
        · intro breaks
          obtain ⟨_, _, read, -, same, again, ends⟩ := breaks
          rw [found] at again
          cases again
          exact ends
        · exact fun ends => ⟨flag, attached, cluster, apart, rfl, found, ends⟩
      rw [breaks]
      cases attached with
      | none =>
          cases found
          exact .inr ⟨by simp [Cluster.flags, Ne.symm apart], .inl ⟨rfl, unled, rfl⟩⟩
      | some text =>
          obtain ⟨read, inner, found⟩ := bind_eq_ok.mp found
          cases found
          rcases cluster_marking marking inner helpless with ⟨ends, refusal, broken⟩ | ⟨free, again⟩
          · exact .inl ⟨ends, refusal, rfl, by rw [clusterOf, broken]; rfl⟩
          · exact .inr ⟨free, .inl ⟨rfl, unled, by rw [clusterOf, again]; rfl⟩⟩
  | @long flag marking attached =>
      refine .inr ⟨?_, .inl ⟨rfl, ?_, ?_⟩⟩
      · rintro ⟨_, _, _, -, same, -⟩
        cases same
      · rintro ⟨_, same⟩
        cases same
      · cases attached <;> exact found
  | verbose spaced =>
      refine .inr ⟨?_, .inr (.inr ⟨_, _, rfl, rfl, spaced⟩)⟩
      rintro ⟨_, _, _, apart, same, -⟩
      cases same
      exact apart rfl
  | help attached => exact absurd (mem_flags_of_clusterOf found) helpless
  | hiddenLong hidden written =>
      refine .inr ⟨?_, .inr (.inl ⟨_, written, hidden, rfl, rfl⟩)⟩
      rintro ⟨_, _, _, -, same, -⟩
      cases same
  | refused hidden value =>
      rw [clusterOf, (Flag.switch_of_hidden hidden).1] at found
      cases found

end Option

theorem marked_of_hidden {flag : Flag} (hidden : flag ∉ Flag.marking) (awaits : Bool) :
    Marked (.long flag none) awaits [] awaits := by
  have settled : ¬ Strays (.long flag none) := by
    rintro ⟨_, _, same, -⟩
    cases same
  refine ⟨?_, by simp [settled], by simp [settled]⟩
  intro field _
  rw [gives_iff (show clusterOf Flag.all (.long flag none) = .ok (some ⟨[], flag, none⟩) from rfl)]
  simp [Cluster.flags, (Flag.switch_of_hidden hidden).2]

/-- What is led by `-v` marks nothing but the base directory, by what it leaves over. -/
theorem marked_of_verbose {attached : Option Text} {awaits : Bool} (text : Text) :
    (Strays (.short .verbose attached) → awaits = true →
      Marked (.short .verbose attached) awaits [.base text] false) ∧
    (Strays (.short .verbose attached) → awaits = false →
      Marked (.short .verbose attached) awaits [] false) ∧
    (¬ Strays (.short .verbose attached) → Marked (.short .verbose attached) awaits [] awaits) := by
  have led : LedByVerbose (.short .verbose attached) := ⟨attached, rfl⟩
  refine ⟨?_, ?_, ?_⟩
  · intro strays awaiting
    refine ⟨?_, by simp [strays, awaiting], by simp [strays]⟩
    intro field other
    simp [Given.field?, led, other]
  · intro strays awaiting
    exact ⟨by simp [led], by simp [awaiting], by simp [awaiting]⟩
  · intro settled
    exact ⟨by simp [led], by simp [settled], by simp [settled]⟩

/-- What the marking reading makes of the tokens of one option. -/
def Outcome (token : Token) (awaits : Bool) (own rest : List Token) : Prop :=
  (Breaks token ∧ ∃ refusal, givens Flag.marking awaits (own ++ rest) = .error refusal) ∨
    (¬ Breaks token ∧ ∃ marks after, Marked token awaits marks after ∧
      givens Flag.marking awaits (own ++ rest) = (givens Flag.marking after rest).map (marks ++ ·))

theorem map_nil_append {ε α : Type} (result : Except ε (List α)) :
    result.map (fun items => [] ++ items) = result := by
  cases result <;> rfl

theorem unmatched_eq (written : Text) :
    (' ' ∈ written ∧ unmatched written = .plain written) ∨
      (' ' ∉ written ∧ unmatched written = .unknown written) := by
  by_cases spaced : ' ' ∈ written
  · exact .inl ⟨spaced, by simp [unmatched, spaced]⟩
  · exact .inr ⟨spaced, by simp [unmatched, spaced]⟩

section Outcome

variable {token other : Token} {cluster : Cluster} {items : List Given} {text : Text}
  (found : clusterOf Flag.all token = .ok (some cluster)) (seen : Seen token other)
  (awaits : Bool) (rest : List Token)

include found seen

theorem outcome_switches (whole : ¬ (cluster.last.takesValue = true ∧ cluster.attached = none))
    (made : cluster.given cluster.attached = .ok items) : Outcome token awaits [other] rest := by
  have takes := attached_of_clusterOf found
  rcases clusterOf_marking found made takes seen with ⟨breaks, refusal, rfl, broken⟩ | ⟨passes, cases⟩
  · exact .inl ⟨breaks, refusal, givens_refused broken⟩
  · refine .inr ⟨passes, ?_⟩
    rcases cases with ⟨rfl, plain, again⟩ | ⟨flag, written, hidden, rfl, rfl⟩ |
      ⟨attached, written, rfl, rfl, spaced⟩
    · exact ⟨items, awaits, marked_of_marking found made takes awaits plain,
        givens_switches again whole made⟩
    · refine ⟨[], awaits, marked_of_hidden hidden awaits, ?_⟩
      rw [map_nil_append]
      exact givens_unknown
    · obtain ⟨first, second, third⟩ := @marked_of_verbose attached awaits written
      rcases unmatched_eq written with ⟨blank, same⟩ | ⟨solid, same⟩
      · have strays : Strays (.short .verbose attached) :=
          ⟨attached, cluster, rfl, found, .inr (spaced.mp blank)⟩
        rw [same]
        cases awaits with
        | true => exact ⟨_, _, first strays rfl, givens_plain_awaited⟩
        | false => exact ⟨_, _, second strays rfl, by rw [map_nil_append]; exact givens_plain_unawaited⟩
      · have settled : ¬ Strays (.short .verbose attached) := by
          rintro ⟨_, read, shape, again, split | blank⟩
          · rw [found] at again
            cases again
            exact whole split
          · cases shape
            exact solid (spaced.mpr blank)
        rw [same]
        exact ⟨_, _, third settled, by rw [map_nil_append]; exact givens_unknown⟩

theorem outcome_valued (takes : cluster.last.takesValue = true) (bare : cluster.attached = none)
    (made : cluster.given (some text) = .ok items) :
    Outcome token awaits [other, .plain text] rest := by
  rcases clusterOf_marking found made (fun _ => takes) seen with
    ⟨breaks, refusal, rfl, broken⟩ | ⟨passes, cases⟩
  · exact .inl ⟨breaks, refusal, givens_refused broken⟩
  · refine .inr ⟨passes, ?_⟩
    rcases cases with ⟨rfl, plain, again⟩ | ⟨flag, written, hidden, rfl, rfl⟩ |
      ⟨attached, written, rfl, rfl, spaced⟩
    · exact ⟨items, awaits, marked_of_marking found made (fun _ => takes) awaits plain,
        givens_valued again takes bare made⟩
    · cases found
      cases takes.symm.trans (Flag.switch_of_hidden hidden).1
    · have strays : Strays (.short .verbose attached) :=
        ⟨attached, cluster, rfl, found, .inl ⟨takes, bare⟩⟩
      obtain ⟨first, second, -⟩ := @marked_of_verbose attached awaits written
      obtain ⟨again, -, -⟩ := @marked_of_verbose attached awaits text
      rcases unmatched_eq written with ⟨blank, same⟩ | ⟨solid, same⟩
      · rw [same]
        cases awaits with
        | true => exact ⟨_, _, first strays rfl, by simp⟩
        | false =>
            refine ⟨_, _, second strays rfl, ?_⟩
            rw [map_nil_append]
            simp
      · rw [same]
        cases awaits with
        | true => exact ⟨_, _, again strays rfl, by simp⟩
        | false =>
            refine ⟨_, _, second strays rfl, ?_⟩
            rw [map_nil_append]
            simp

end Outcome

/-- What the marking reading marks of accepted arguments that it reads to the end. -/
structure Marks (tokens : List Token) (given : List Given) (awaits : Bool) (marks : List Given) : Prop where
  fields : ∀ field, field ≠ .baseDir →
    (some field ∈ marks.map Given.field? ↔ ∃ token ∈ tokens, ¬ LedByVerbose token ∧ Gives token field)
  base : (∃ dir, .base dir ∈ marks) ↔
    awaits = true ∧ ((∃ dir, .base dir ∈ given) ∨ ∃ token ∈ tokens, Strays token)

/-- What the marking reading makes of accepted arguments. -/
def Ends (tokens : List Token) (given : List Given) (awaits : Bool) (others : List Token) : Prop :=
  ((∃ token ∈ tokens, Breaks token) ∧ ∃ refusal, givens Flag.marking awaits others = .error refusal) ∨
    ((∀ token ∈ tokens, ¬ Breaks token) ∧
      ∃ marks, Marks tokens given awaits marks ∧ givens Flag.marking awaits others = .ok marks)

section Whole

variable {token : Token} {tokens own rest : List Token} {items given : List Given} {awaits : Bool}

/-- A token without options changes nothing about the options of those behind it. -/
theorem mem_plain_iff (bare : clusterOf Flag.all token = .ok none) :
    ((∃ other ∈ token :: tokens, Breaks other) ↔ ∃ other ∈ tokens, Breaks other) ∧
      ((∃ other ∈ token :: tokens, Strays other) ↔ ∃ other ∈ tokens, Strays other) ∧
        ∀ field, ((∃ other ∈ token :: tokens, ¬ LedByVerbose other ∧ Gives other field) ↔
          ∃ other ∈ tokens, ¬ LedByVerbose other ∧ Gives other field) := by
  have calm : ¬ Breaks token := by
    rintro ⟨_, _, _, -, -, found, -⟩
    cases bare.symm.trans found
  have settled : ¬ Strays token := by
    rintro ⟨_, _, -, found, -⟩
    cases bare.symm.trans found
  simp [calm, settled, not_gives_of_bare bare]

/-- One option, and what comes behind it. -/
theorem ends_of_outcome (outcome : Outcome token awaits own rest) (baseless : ∀ dir, .base dir ∉ items)
    (later : ∀ after, Ends tokens given after rest) :
    Ends (token :: tokens) (items ++ given) awaits (own ++ rest) := by
  rcases outcome with ⟨breaks, refusal, broken⟩ | ⟨passes, marks, after, marked, same⟩
  · exact .inl ⟨⟨token, List.mem_cons_self .., breaks⟩, refusal, broken⟩
  · rw [Ends, same]
    rcases later after with ⟨⟨other, member, breaks⟩, refusal, broken⟩ | ⟨calm, more, all, read⟩
    · exact .inl ⟨⟨other, List.mem_cons_of_mem _ member, breaks⟩, refusal, by rw [broken]; rfl⟩
    · refine .inr ⟨List.forall_mem_cons.mpr ⟨passes, calm⟩, marks ++ more, ?_, by rw [read]; rfl⟩
      constructor
      · intro field other
        rw [List.map_append, List.mem_append, marked.fields field other, all.fields field other]
        simp
      · have bases : (∃ dir, .base dir ∈ items ++ given) ↔ ∃ dir, .base dir ∈ given := by
          simp [baseless]
        rw [bases]
        simp only [List.mem_append, exists_or, marked.base, all.base, marked.after]
        by_cases strays : Strays token
        · simp [strays]
        · simp [strays]

theorem ends_of_plain (bare : clusterOf Flag.all token = .ok none) {others : List Token}
    (ends : Ends tokens given awaits others) : Ends (token :: tokens) given awaits others := by
  obtain ⟨breaks, strays, gives⟩ := @mem_plain_iff token tokens bare
  rcases ends with ⟨broken, refused⟩ | ⟨calm, marks, ⟨fields, base⟩, read⟩
  · exact .inl ⟨breaks.mpr broken, refused⟩
  · have free : ∀ other ∈ token :: tokens, ¬ Breaks other := by
      intro other member broken
      obtain ⟨inner, held, again⟩ := breaks.mp ⟨other, member, broken⟩
      exact calm inner held again
    refine .inr ⟨free, marks, ⟨?_, ?_⟩, read⟩
    · exact fun field other => (fields field other).trans (gives field).symm
    · rw [base, strays]

theorem ends_of_separator {others : List Token} (ends : Ends tokens given awaits others) :
    Ends (.separator :: tokens) given awaits (.separator :: others) := by
  rw [Ends, givens_separator]
  exact ends_of_plain rfl ends

/-- The base directory, which is the first plain argument in both readings, unless something led by `-v` was
taken for it already. -/
theorem ends_of_base (text : Text) (later : ∀ after, Ends tokens given after rest) :
    Ends (.plain text :: tokens) (.base text :: given) awaits (.plain text :: rest) := by
  apply ends_of_plain rfl
  rcases later false with ⟨broken, refusal, refused⟩ | ⟨calm, marks, ⟨fields, base⟩, read⟩
  · refine .inl ⟨broken, refusal, ?_⟩
    cases awaits <;> simp [refused, Except.map]
  · refine .inr ⟨calm, ?_⟩
    cases awaits with
    | true =>
        refine ⟨.base text :: marks, ⟨?_, ?_⟩, by simp [read, Except.map]⟩
        · intro field other
          rw [← fields field other]
          simp [Given.field?, other]
        · simp
    | false => exact ⟨marks, ⟨fields, by simpa using base⟩, by simp [read]⟩

theorem ends_of_accepts (accepts : Accepts awaits tokens given) {others : List Token}
    (seen : List.Forall₂ Seen tokens others) (still : Bool) : Ends tokens given still others := by
  induction accepts generalizing others still with
  | done =>
      cases seen
      exact .inr ⟨by simp, [], ⟨by simp, by simp⟩, rfl⟩
  | separator later ih =>
      cases seen with
      | cons one seen =>
          cases one
          exact ends_of_separator (ih seen still)
  | base text later ih =>
      cases seen with
      | cons one seen =>
          cases one
          exact ends_of_base text (ih seen)
  | basePair text later ih =>
      cases seen with
      | cons one seen =>
          cases one
          cases seen with
          | cons two seen =>
              cases two
              exact ends_of_base text fun after => ends_of_separator (ih seen after)
  | switches found whole made later ih =>
      cases seen with
      | cons one seen =>
          have baseless := (Cluster.given_spec made (attached_of_clusterOf found)).2.2
          exact ends_of_outcome (outcome_switches found one still _ whole made) baseless (ih seen)
  | valued found takes bare made later ih =>
      cases seen with
      | cons one seen =>
          cases seen with
          | cons value seen =>
              cases value
              have baseless := (Cluster.given_spec made fun _ => takes).2.2
              exact ends_of_outcome (outcome_valued found one still _ takes bare made) baseless
                fun after => ends_of_plain rfl (ih seen after)

end Whole

end PathSearch.Arguments
