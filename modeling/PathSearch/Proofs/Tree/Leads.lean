import PathSearch.Proofs.Tree.Resolve

/-!
Where names lead, and through how many links. There is one way at most, and on a way without links a `..`
takes back the name before it.
-/

namespace PathSearch.FileSystem

/-- A name leads one level up, or down to what is no link. -/
inductive Passes (system : FileSystem) : Location → Text → Location → Prop where
  | up {location : Location} (inside : system.tree.isDir location = true) :
      Passes system location Path.up location.dropLast
  | down {location : Location} {name : Text} {node : Node}
      (inside : system.tree.isDir location = true) (named : name ≠ Path.up)
      (found : system.tree.node? (location ++ [name]) = some node)
      (solid : ∀ target, node ≠ .link target) : Passes system location name (location ++ [name])

/-- Names lead from one location to another, through so many links in all. Where the target of a link asks for a
directory it leads to one. -/
inductive Leads (system : FileSystem) : Location → List Text → Nat → Location → Prop where
  | here {location : Location} : Leads system location [] 0 location
  | pass {start next location : Location} {name : Text} {names : List Text} {links : Nat}
      (passes : Passes system start name next) (rest : Leads system next names links location) :
      Leads system start (name :: names) links location
  | link {start next location : Location} {name target : Text} {names : List Text} {inner links : Nat}
      (inside : system.tree.isDir start = true) (named : name ≠ Path.up)
      (found : system.tree.node? (start ++ [name]) = some (.link target))
      (through : Leads system (targetStart start target) (Path.namesOf target) inner next)
      (asked : asksForDir target = true → system.tree.isDir next = true)
      (rest : Leads system next names links location) :
      Leads system start (name :: names) (inner + links + 1) location

variable {system : FileSystem} {start middle next location other : Location} {name : Text}
  {names others above : List Text} {links more limit : Nat} {anchor : Anchor} {path : Path}

theorem Passes.inside (passes : system.Passes start name next) : system.tree.isDir start = true := by
  cases passes with
  | up inside => exact inside
  | down inside => exact inside

theorem Passes.unique (passes : system.Passes start name next) (again : system.Passes start name other) :
    next = other := by
  cases passes with
  | up =>
      cases again with
      | up => rfl
      | down _ named => exact absurd rfl named
  | down _ named =>
      cases again with
      | up => exact absurd rfl named
      | down => rfl

theorem Passes.not_link (passes : system.Passes start name next) (named : name ≠ Path.up)
    (target : Text) : system.tree.node? (start ++ [name]) ≠ some (.link target) := by
  cases passes with
  | up => exact absurd rfl named
  | down _ _ found solid =>
      rw [found]
      exact fun same => solid target (Option.some.inj same)

/-- A name with a NUL in it leads nowhere. -/
theorem Passes.clear (passes : system.Passes start name next) : Char.ofNat 0 ∉ name := by
  cases passes with
  | up => decide
  | down _ _ found => exact (Tree.isEntryName_of_node? found).2.2

namespace Leads

theorem clear (led : system.Leads start names links location) : ∀ name ∈ names, Char.ofNat 0 ∉ name := by
  induction led with
  | here => simp
  | pass passes _ ih => exact List.forall_mem_cons.mpr ⟨passes.clear, ih⟩
  | link _ _ found _ _ _ _ ih => exact List.forall_mem_cons.mpr ⟨(Tree.isEntryName_of_node? found).2.2, ih⟩

theorem append (first : system.Leads start names links middle)
    (second : system.Leads middle others more location) :
    system.Leads start (names ++ others) (links + more) location := by
  induction first with
  | here => simpa using second
  | pass passes _ ih => exact .pass passes (ih second)
  | @link _ _ _ _ _ _ inner links inside named found through asked _ _ ih =>
      have total : inner + links + 1 + more = inner + (links + more) + 1 := by omega
      rw [total]
      exact .link inside named found through asked (ih second)

theorem split (led : system.Leads start (names ++ others) limit location) :
    ∃ links more middle, system.Leads start names links middle ∧
      system.Leads middle others more location ∧ limit = links + more := by
  induction names generalizing start limit with
  | nil => exact ⟨0, limit, start, .here, led, by simp⟩
  | cons name names ih =>
      cases led with
      | pass passes rest =>
          obtain ⟨links, more, middle, first, second, total⟩ := ih rest
          exact ⟨links, more, middle, .pass passes first, second, total⟩
      | @link _ _ _ _ _ _ inner _ inside named found through asked rest =>
          obtain ⟨links, more, middle, first, second, total⟩ := ih rest
          exact ⟨inner + links + 1, more, middle, .link inside named found through asked first, second, by omega⟩

theorem unique (led : system.Leads start names links location)
    (again : system.Leads start names more other) : links = more ∧ location = other := by
  induction led generalizing more other with
  | here =>
      cases again
      exact ⟨rfl, rfl⟩
  | pass passes _ ih =>
      cases again with
      | pass others rest =>
          obtain rfl := passes.unique others
          exact ih rest
      | link _ named found => exact absurd found (passes.not_link named _)
  | link _ named found _ _ _ inner ih =>
      cases again with
      | pass passes => exact absurd found (passes.not_link named _)
      | link _ _ same through _ rest =>
          cases found.symm.trans same
          obtain ⟨rfl, rfl⟩ := inner through
          obtain ⟨rfl, rfl⟩ := ih rest
          exact ⟨rfl, rfl⟩

/-- Names are followed in a directory. -/
theorem eq_nil_or_inside (led : system.Leads start names links location) :
    (names = [] ∧ start = location) ∨ system.tree.isDir start = true := by
  cases led with
  | here => exact .inl ⟨rfl, rfl⟩
  | pass passes => exact .inr passes.inside
  | link inside => exact .inr inside

theorem passes_of_direct (led : system.Leads start [name] 0 location) :
    system.Passes start name location := by
  cases led with
  | pass passes rest =>
      cases rest
      exact passes

end Leads

section Limits

theorem followWithin_nil : system.followWithin limit start [] = .ok location ↔ start = location := by
  cases limit <;> simp [followWithin, followNames]

theorem followWithin_pass (passes : system.Passes start name next) :
    system.followWithin limit start (name :: names) = system.followWithin limit next names := by
  cases passes with
  | up inside => cases limit <;> simp [followWithin, followNames, inside]
  | @down _ node inside named found solid =>
      cases node with
      | link target => exact absurd rfl (solid target)
      | dir entries => cases limit <;> simp [followWithin, followNames, inside, named, found]
      | file content => cases limit <;> simp [followWithin, followNames, inside, named, found]
      | other => cases limit <;> simp [followWithin, followNames, inside, named, found]

theorem Leads.followWithin_append (led : system.Leads start names links middle)
    (followed : system.followWithin limit middle others = .ok location) :
    system.followWithin (links + limit) start (names ++ others) = .ok location := by
  induction led generalizing limit others with
  | here => simpa using followed
  | pass passes _ ih =>
      rw [List.cons_append, followWithin_pass passes]
      exact ih followed
  | @link _ _ _ _ target names inner links inside named found _ asked _ outward ih =>
      have total : inner + links + 1 + limit = inner + (links + limit) + 1 := by omega
      have onward := ih followed
      have further := outward onward
      -- With no name left to follow, what the link leads to is the end.
      have settled :
          ¬ (names ++ others = [] ∧ asksForDir target = true ∧ ¬ system.tree.isDir location = true) := by
        rintro ⟨ended, asks, none⟩
        rw [ended] at onward
        exact none (followWithin_nil.mp onward ▸ asked asks)
      rw [total, List.cons_append]
      simp only [followWithin, followNames, inside, if_true, if_neg named, found, further, bind, Except.bind]
      exact if_neg settled

theorem exists_leads_of_followNames {follow : Location → Text → List Text → Except FileCause Location}
    (further : ∀ place target rest, follow place target rest = .ok location →
      (rest = [] → asksForDir target = true → system.tree.isDir location = true) ∧
      ∃ links < limit, system.Leads (targetStart place target) (Path.namesOf target ++ rest) links location)
    (followed : system.followNames follow start names = .ok location) :
    ∃ links ≤ limit, system.Leads start names links location := by
  induction names generalizing start with
  | nil =>
      cases followed
      exact ⟨0, Nat.zero_le _, .here⟩
  | cons name names ih =>
      rw [followNames] at followed
      by_cases inside : system.tree.isDir start = true
      · rw [if_pos inside] at followed
        by_cases climbing : name = Path.up
        · rw [if_pos climbing] at followed
          obtain ⟨links, few, led⟩ := ih followed
          exact ⟨links, few, climbing ▸ .pass (.up inside) led⟩
        · rw [if_neg climbing] at followed
          have passed (node : Node) (found : system.tree.node? (start ++ [name]) = some node)
              (solid : ∀ target, node ≠ .link target)
              (followed : system.followNames follow (start ++ [name]) names = .ok location) :
              ∃ links ≤ limit, system.Leads start (name :: names) links location := by
            obtain ⟨links, few, led⟩ := ih followed
            exact ⟨links, few, .pass (.down inside climbing found solid) led⟩
          cases found : system.tree.node? (start ++ [name]) with
          | none => simp [found] at followed
          | some node =>
              rw [found] at followed
              cases node with
              | link target =>
                  obtain ⟨ended, _, few, led⟩ := further _ _ _ followed
                  obtain ⟨inner, links, middle, first, second, rfl⟩ := led.split
                  have asked : asksForDir target = true → system.tree.isDir middle = true := by
                    intro asks
                    rcases second.eq_nil_or_inside with ⟨rfl, rfl⟩ | onward
                    · exact ended rfl asks
                    · exact onward
                  exact ⟨inner + links + 1, few, .link inside climbing found first asked second⟩
              | dir entries => exact passed _ found (by simp) followed
              | file content => exact passed _ found (by simp) followed
              | other => exact passed _ found (by simp) followed
      · rw [if_neg inside] at followed
        cases followed

theorem followWithin_eq_ok :
    system.followWithin limit start names = .ok location ↔
      ∃ links ≤ limit, system.Leads start names links location := by
  constructor
  · intro followed
    induction limit generalizing start names with
    | zero => exact exists_leads_of_followNames (by simp) followed
    | succ limit ih =>
        refine exists_leads_of_followNames ?_ followed
        intro place target rest reached
        obtain ⟨middle, further, arrived⟩ := bind_eq_ok.mp reached
        split at arrived
        · cases arrived
        · rename_i settled
          cases arrived
          obtain ⟨links, few, led⟩ := ih further
          refine ⟨fun ended asks => ?_, links, Nat.lt_succ_of_le few, led⟩
          exact Decidable.byContradiction fun none => settled ⟨ended, asks, none⟩
  · intro found
    obtain ⟨links, few, led⟩ := found
    have here : system.followWithin (limit - links) location [] = .ok location := followWithin_nil.mpr rfl
    have followed := led.followWithin_append here
    rwa [List.append_nil, Nat.add_sub_cancel' few] at followed

/-- What leads anywhere has no NUL in it. -/
theorem clear_of_resolve (resolved : system.resolve path = .ok location) :
    ∀ name ∈ path.names, Char.ofNat 0 ∉ name := by
  obtain ⟨links, -, led⟩ := followWithin_eq_ok.mp resolved
  exact fun name member => led.clear name (Path.mem_names_append system.current member)

end Limits

section Cancelling

theorem Leads.climb (led : system.Leads start above.reverse 0 middle)
    (passes : system.Passes middle name location) (bottom : anchor = .here ∨ start = []) :
    system.Leads start (Path.climb anchor above name).reverse 0 location := by
  have further : system.Leads start (name :: above).reverse 0 location := by
    rw [List.reverse_cons]
    exact led.append (.pass passes .here)
  unfold Path.climb
  by_cases climbing : name = Path.up
  · subst climbing
    rw [if_pos rfl]
    cases above with
    | nil =>
        rcases bottom with rfl | rfl
        · exact further
        · cases led
          have stays : location = [] := (passes.unique (.up passes.inside)).trans rfl
          by_cases free : anchor = .here
          · simpa [free] using further
          · simpa [free, stays] using Leads.here
    | cons nearest others =>
        by_cases rising : nearest = Path.up
        · subst rising
          simpa only [if_pos] using further
        · simp only [if_neg rising]
          rw [List.reverse_cons] at led
          obtain ⟨links, more, place, first, second, total⟩ := led.split
          obtain ⟨rfl, rfl⟩ : links = 0 ∧ more = 0 := by omega
          cases second.passes_of_direct with
          | up => exact absurd rfl rising
          | down =>
              have back : location = place := (passes.unique (.up passes.inside)).trans (by simp)
              exact back ▸ first
  · rwa [if_neg climbing]

theorem Leads.foldl_climb (led : system.Leads start above.reverse 0 middle)
    (rest : system.Leads middle names 0 location) (bottom : anchor = .here ∨ start = []) :
    system.Leads start (names.foldl (Path.climb anchor) above).reverse 0 location := by
  induction names generalizing above middle with
  | nil =>
      cases rest
      exact led
  | cons name names ih =>
      cases rest with
      | pass passes rest => exact ih (led.climb passes bottom) rest

end Cancelling

/-- The path leads to the location and goes through no link. -/
def Locates (system : FileSystem) (path : Path) (location : Location) : Prop :=
  system.Leads [] (system.current ++ path).names 0 location

namespace Locates

theorem resolve (locates : system.Locates path location) : system.resolve path = .ok location :=
  followWithin_eq_ok.mpr ⟨0, Nat.zero_le _, locates⟩

theorem clear (locates : system.Locates path location) : Char.ofNat 0 ∉ path.text :=
  Path.notMem_text (by decide) (by decide) fun name member =>
    Leads.clear locates name (Path.mem_names_append system.current member)

theorem unique (locates : system.Locates path location) (again : system.Locates path other) :
    location = other := (Leads.unique locates again).2

theorem append (locates : system.Locates path location) (named : IsName name)
    (passes : system.Passes location name next) : system.Locates (path ++ Path.ofText name) next := by
  rw [Locates, Path.names_append_ofText system.current path named]
  exact Leads.append locates (.pass passes .here)

theorem collapse (locates : system.Locates path location) :
    system.Locates (Path.collapse path) location := by
  have same : (Path.collapse path).IsAbsolute ↔ path.IsAbsolute := Iff.rfl
  by_cases rooted : path.IsAbsolute
  · rw [Locates, Path.append_of_isAbsolute _ rooted] at locates
    rw [Locates, Path.append_of_isAbsolute _ (same.mpr rooted)]
    exact Leads.foldl_climb .here locates (.inr rfl)
  · have names : (system.current ++ path).names = system.current.names ++ path.names := by
      change (Path.append system.current path).names = _
      rw [Path.append, if_neg rooted]
    have collapsed : (system.current ++ Path.collapse path).names =
        system.current.names ++ (Path.collapse path).names := by
      change (Path.append system.current (Path.collapse path)).names = _
      rw [Path.append, if_neg (mt same.mp rooted)]
    rw [Locates, names] at locates
    obtain ⟨links, more, middle, first, second, total⟩ := Leads.split locates
    obtain ⟨rfl, rfl⟩ : links = 0 ∧ more = 0 := by omega
    have here : path.anchor = .here := by simpa [Path.IsAbsolute] using rooted
    rw [Locates, collapsed]
    exact first.append (Leads.foldl_climb .here second (.inl here))

theorem normalize (absolute : system.current.IsAbsolute) (locates : system.Locates path location) :
    system.Locates (Path.normalize system.current path) location := by
  apply collapse
  rwa [Locates, Path.append_of_isAbsolute _ (Path.isAbsolute_append absolute path)]

end Locates

end PathSearch.FileSystem
