import PathSearch.Proofs.Tree.Leads
import PathSearch.Tree.Canonical

/-!
Whatever a path leads to is where its canonical form lies. Reading a link takes fewer links than leaving it
behind, so no link is met while it is being read, and none of them is nested too deeply.
-/

namespace PathSearch

theorem eq_nil_or_dot_of_not_isName {piece : Text} (whole : '/' ∉ piece) (nameless : ¬ IsName piece) :
    piece = [] ∨ piece = ['.'] := by
  by_cases none : piece = []
  · exact .inl none
  · exact .inr (Decidable.byContradiction fun other => nameless ⟨none, whole, other⟩)

theorem Path.append_ofText_of_not_isName (path : Path) {piece : Text} (whole : '/' ∉ piece)
    (nameless : ¬ IsName piece) : path ++ ofText piece = path := by
  have same (text : Text) (anchor : Anchor.ofText text = .here) (names : namesOf text = []) :
      path ++ ofText text = path := by
    change append path (ofText text) = path
    apply ext <;> simp [append, IsAbsolute, ofText, anchor, names]
  rcases eq_nil_or_dot_of_not_isName whole nameless with rfl | rfl
  · exact same _ rfl rfl
  · exact same _ rfl rfl

namespace FileSystem

variable {system : FileSystem} {path directory link result : Path} {base start location : Location}
  {name target : Text} {pieces : List Text} {trail : Trail} {reached : Reached} {links more : Nat}

theorem linkIn?_eq_some (resolved : system.resolve directory = .ok base) :
    system.linkIn? directory name = some target ↔
      system.tree.node? (base ++ [name]) = some (.link target) := by
  simp only [linkIn?, resolved]
  cases system.tree.node? (base ++ [name]) with
  | none => simp
  | some node => cases node <;> simp

theorem linkIn?_eq_none (resolved : system.resolve directory = .ok base)
    (solid : ∀ target, system.tree.node? (base ++ [name]) ≠ some (.link target)) :
    system.linkIn? directory name = none := by
  rw [Option.eq_none_iff_forall_ne_some]
  exact fun target link => solid target ((linkIn?_eq_some resolved).mp link)

theorem Trail.of?_cons (met : Option Path) (other : Path) :
    Trail.of? ((link, met) :: trail) other = if link = other then some met else trail.of? other := by
  by_cases same : link = other <;> simp [Trail.of?, same]

/-- The path is that of a link, whose target leads to the location through so many links. -/
def Reads (system : FileSystem) (link : Path) (links : Nat) (location : Location) : Prop :=
  ∃ directory base name target, link = directory ++ Path.ofText name ∧ system.Locates directory base ∧
    system.tree.node? (base ++ [name]) = some (.link target) ∧
    system.Leads (targetStart base target) (Path.namesOf target) links location

theorem Reads.unique {other : Location} (reads : system.Reads link links location)
    (again : system.Reads link more other) : links = more ∧ location = other := by
  obtain ⟨directory, base, name, target, rfl, locates, found, led⟩ := reads
  obtain ⟨second, place, called, text, same, placed, there, ledAgain⟩ := again
  obtain ⟨rfl, rfl⟩ := (Path.append_ofText_inj (Tree.isEntryName_of_node? found)
    (Tree.isEntryName_of_node? there)).mp same
  obtain rfl := locates.unique placed
  cases found.symm.trans there
  exact led.unique ledAgain

/-- What the trail tells of links is where they lead. -/
def Knows (system : FileSystem) (trail : Trail) : Prop :=
  ∀ link result, trail.of? link = some (some result) →
    ∀ links location, system.Reads link links location → system.Locates result location

/-- Each of the links that are being read takes so many links at least. -/
def Awaits (system : FileSystem) (trail : Trail) (least : Nat) : Prop :=
  ∀ link, trail.of? link = some none →
    ∀ links location, system.Reads link links location → least ≤ links

/-- Reading came to the location, and left no other links unread than there were. -/
structure Arrives (system : FileSystem) (trail : Trail) (reached : Reached) (location : Location) :
    Prop where
  complete : reached.complete = true
  locates : system.Locates reached.path location
  knows : system.Knows reached.trail
  awaited : ∀ link, reached.trail.of? link = some none → trail.of? link = some none

section Trails

theorem Knows.cons (knows : system.Knows trail) (met : Option Path)
    (told : ∀ result, met = some result → ∀ links location, system.Reads link links location →
      system.Locates result location) : system.Knows ((link, met) :: trail) := by
  intro other result found
  rw [Trail.of?_cons] at found
  by_cases same : link = other
  · rw [if_pos same] at found
    exact same ▸ told result (Option.some.inj found)
  · rw [if_neg same] at found
    exact knows other result found

theorem Awaits.mono (awaits : system.Awaits trail more) (fewer : links ≤ more) :
    system.Awaits trail links :=
  fun link waiting taken location reads => Nat.le_trans fewer (awaits link waiting taken location reads)

theorem Awaits.cons (awaits : system.Awaits trail links) (reads : system.Reads link links location) :
    system.Awaits ((link, none) :: trail) links := by
  intro other waiting taken place again
  rw [Trail.of?_cons] at waiting
  by_cases same : link = other
  · exact Nat.le_of_eq (reads.unique (same ▸ again)).1
  · rw [if_neg same] at waiting
    exact awaits other waiting taken place again

/-! After a link has been read, reading goes on from where it leads. -/

section Onward

variable (arrives : system.Arrives ((link, none) :: trail) reached base)

include arrives

theorem Arrives.knows_onward (reads : system.Reads link links base) :
    system.Knows ((link, some reached.path) :: reached.trail) := by
  apply arrives.knows.cons
  rintro result same taken place again
  obtain ⟨-, rfl⟩ := reads.unique again
  exact Option.some.inj same ▸ arrives.locates

theorem Arrives.awaited_onward {other : Path}
    (waiting : Trail.of? ((link, some reached.path) :: reached.trail) other = some none) :
    trail.of? other = some none := by
  rw [Trail.of?_cons] at waiting
  by_cases same : link = other
  · simp [same] at waiting
  · rw [if_neg same] at waiting
    have before := arrives.awaited other waiting
    rwa [Trail.of?_cons, if_neg same] at before

end Onward

end Trails

section Following

variable {enter : Trail → Path → Text → Except CanonicalError Reached} {bound : Nat}

/-- Reading comes to where the names among the pieces lead, if reading the targets of links does. -/
theorem exists_follow
    (enters : ∀ trail directory base target links location, links < bound →
      system.Locates directory base →
      system.Leads (targetStart base target) (Path.namesOf target) links location →
      system.Knows trail → system.Awaits trail links →
      ∃ reached, enter trail directory target = .ok reached ∧ system.Arrives trail reached location)
    (whole : ∀ piece ∈ pieces, '/' ∉ piece) (locates : system.Locates path start)
    (led : system.Leads start (pieces.filter fun piece => IsName piece) links location)
    (few : links ≤ bound) (knows : system.Knows trail) (awaits : system.Awaits trail links) :
    ∃ reached, system.follow enter trail path pieces = .ok reached ∧
      system.Arrives trail reached location := by
  induction pieces generalizing trail path start links with
  | nil =>
      cases led
      exact ⟨_, rfl, rfl, locates, knows, fun _ waiting => waiting⟩
  | cons piece rest ih =>
      obtain ⟨unbroken, others⟩ := List.forall_mem_cons.mp whole
      by_cases named : IsName piece
      · rw [List.filter_cons_of_pos (by simpa using named)] at led
        cases led with
        | pass passes led =>
            have next := locates.append named passes
            by_cases climbing : piece = Path.up
            · rw [follow, if_pos climbing]
              exact ih others next.collapse led few knows awaits
            · have solid := linkIn?_eq_none locates.resolve (passes.not_link climbing)
              simp only [follow, if_neg climbing, if_neg passes.clear, solid]
              exact ih others next led few knows awaits
        | @link _ next _ _ target _ inner left inside climbing found through _ led =>
            have clear : Char.ofNat 0 ∉ piece := (Tree.isEntryName_of_node? found).2.2
            have link := (linkIn?_eq_some locates.resolve).mpr found
            have reads : system.Reads (path ++ Path.ofText piece) inner next :=
              ⟨path, start, piece, target, rfl, locates, found, through⟩
            have later : system.Awaits trail left := awaits.mono (by omega)
            simp only [follow, if_neg climbing, if_neg clear, link]
            cases met : trail.of? (path ++ Path.ofText piece) with
            | some result =>
                cases result with
                | none =>
                    -- The link would take fewer links to read than it takes.
                    have least := awaits _ met inner next reads
                    omega
                | some result =>
                    exact ih others (knows _ _ met inner next reads) led (by omega) knows later
            | none =>
                have short : system.Awaits trail inner := awaits.mono (by omega)
                obtain ⟨reached, entered, arrives⟩ :=
                  enters ((path ++ Path.ofText piece, none) :: trail) path start target inner next
                    (by omega) locates through (knows.cons none (by simp)) (short.cons reads)
                obtain ⟨last, followed, ends⟩ := ih others arrives.locates led (by omega)
                  (arrives.knows_onward reads) fun other waiting => later other (arrives.awaited_onward waiting)
                refine ⟨last, ?_, ends.complete, ends.locates, ends.knows, ?_⟩
                · simp only [entered, arrives.complete, if_true]
                  exact followed
                · exact fun other waiting => arrives.awaited_onward (ends.awaited other waiting)
      · rw [List.filter_cons_of_neg (by simpa using named)] at led
        have stays := Path.append_ofText_of_not_isName path unbroken named
        have climbing : piece ≠ Path.up := by
          rintro rfl
          exact named (by decide)
        have solid := linkIn?_eq_none locates.resolve fun target found =>
          named (Tree.isEntryName_of_node? found).1
        have clear : Char.ofNat 0 ∉ piece := by
          rcases eq_nil_or_dot_of_not_isName unbroken named with rfl | rfl <;> decide
        simp only [follow, if_neg climbing, if_neg clear, solid, stays]
        exact ih others locates led few knows awaits

theorem locates_root (system : FileSystem) : system.Locates .root [] := by
  rw [Locates, Path.append_of_isAbsolute _ (by decide)]
  exact .here

theorem Locates.targetBase (locates : system.Locates directory base) (target : Text) :
    system.Locates (targetBase directory target) (targetStart base target) := by
  unfold FileSystem.targetBase targetStart
  split
  · exact locates
  · exact locates_root system

theorem exists_followNested {levels : Nat} (whole : ∀ piece ∈ pieces, '/' ∉ piece)
    (locates : system.Locates path start)
    (led : system.Leads start (pieces.filter fun piece => IsName piece) links location)
    (few : links ≤ levels) (knows : system.Knows trail) (awaits : system.Awaits trail links) :
    ∃ reached, system.followNested levels trail path pieces = .ok reached ∧
      system.Arrives trail reached location := by
  induction levels generalizing trail path start pieces links location with
  | zero => exact exists_follow (by simp) whole locates led few knows awaits
  | succ levels ih =>
      refine exists_follow ?_ whole locates led few knows awaits
      intro trail directory base target inner place fewer located through known awaited
      exact ih (fun piece member => Text.separator_notMem_of_mem_split member)
        (located.targetBase target) through (Nat.le_of_lt_succ fewer) known awaited

end Following

/-- There is a working directory, with no link on the way to it. -/
def IsSettled (system : FileSystem) : Prop :=
  system.current.IsAbsolute ∧ ∃ place, system.Locates .here place

/-- The canonical form of what can be looked at lies where the path leads. -/
theorem exists_canonical (settled : system.IsSettled) {node : Option Node}
    (found : system.status path = .ok (location, node)) :
    ∃ canonical, system.canonical path = .ok canonical ∧ canonical.IsNormal ∧
      system.Locates canonical location := by
  obtain ⟨absolute, place, here⟩ := settled
  obtain ⟨resolved, allowed, -⟩ := resolve_of_status found
  obtain ⟨links, few, led⟩ := followWithin_eq_ok.mp resolved
  have begins : ∃ base links, links ≤ nestingLimit ∧
      system.Locates (if path.IsAbsolute then .root else .here) base ∧
        system.Leads base path.names links location := by
    by_cases rooted : path.IsAbsolute
    · rw [Path.append_of_isAbsolute _ rooted] at led
      rw [if_pos rooted]
      exact ⟨[], links, Nat.le_trans few (by decide), locates_root system, led⟩
    · have names : (system.current ++ path).names = (system.current ++ Path.here).names ++ path.names := by
        change (Path.append system.current path).names = (Path.append system.current .here).names ++ _
        rw [Path.append, Path.append, if_neg rooted, if_neg (by decide)]
        simp [Path.here]
      rw [names] at led
      obtain ⟨none, left, middle, first, rest, total⟩ := led.split
      obtain ⟨-, rfl⟩ := first.unique here
      rw [if_neg rooted]
      exact ⟨middle, left, by simp only [linkLimit, nestingLimit] at *; omega, here, rest⟩
  obtain ⟨base, links, few, locates, led⟩ := begins
  have names : path.names.filter (fun name => IsName name) = path.names :=
    List.filter_eq_self.mpr fun name member => by simpa using path.named name member
  have knows : system.Knows [] := by simp [Knows, Trail.of?]
  have awaits : system.Awaits [] links := by simp [Awaits, Trail.of?]
  obtain ⟨reached, followed, arrives⟩ := exists_followNested
    (fun name member => (path.named name member).2.1) locates (names.symm ▸ led) few knows awaits
  have ends := arrives.locates.normalize absolute
  refine ⟨_, ?_, Path.isNormal_normalize absolute reached.path, ends⟩
  have shown : system.status (Path.normalize system.current reached.path) =
      .ok (location, system.tree.node? location) := status_eq_ok.mpr ⟨ends.clear, ends.resolve, allowed, rfl⟩
  simp only [canonical, followed, shown]

end FileSystem

end PathSearch
