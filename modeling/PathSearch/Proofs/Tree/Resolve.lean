import PathSearch.Proofs.Path.Normal
import PathSearch.Proofs.Results
import PathSearch.Tree.System

/-! Where paths lead, and which answers of a file system are due to its faults. -/

namespace PathSearch

theorem Path.names_append_ofText (base path : Path) {name : Text} (named : IsName name) :
    (base ++ (path ++ Path.ofText name)).names = (base ++ path).names ++ [name] := by
  rw [append_ofText_of_isName path named]
  change (append base (path.child name named)).names = (append base path).names ++ [name]
  have anchors : (path.child name named).IsAbsolute ↔ path.IsAbsolute := Iff.rfl
  by_cases rooted : path.IsAbsolute
  · rw [append, append, if_pos (anchors.mpr rooted), if_pos rooted]
    rfl
  · rw [append, append, if_neg (mt anchors.mp rooted), if_neg rooted]
    simp [child]

theorem Path.append_ofText_inj {directory other : Path} {name otherName : Text}
    (named : IsEntryName name) (otherNamed : IsEntryName otherName) :
    directory ++ ofText name = other ++ ofText otherName ↔ directory = other ∧ name = otherName := by
  rw [append_ofText_of_isName directory named.1, append_ofText_of_isName other otherNamed.1]
  constructor
  · intro same
    have anchors := congrArg Path.anchor same
    have names := congrArg Path.names same
    obtain ⟨front, last⟩ := List.append_inj' names rfl
    exact ⟨ext anchors front, (List.cons.inj last).1⟩
  · rintro ⟨rfl, rfl⟩
    rfl

theorem Node.at?_append (node : Node) (location : Location) (name : Text) :
    node.at? (location ++ [name]) =
      (node.at? location).bind fun inner => Entries.find? name inner.entries := by
  induction location generalizing node with
  | nil =>
      cases found : Entries.find? name node.entries <;> simp [at?, found]
  | cons first rest ih =>
      cases found : Entries.find? first node.entries with
      | none => simp [at?, found]
      | some inner => simp [at?, found, ih]

theorem Entries.exists_find? {entries : Entries} {name : Text} (member : name ∈ names entries) :
    ∃ node, find? name entries = some node := by
  induction entries with
  | nil => simp [names] at member
  | cons entry rest ih =>
      obtain ⟨other, node⟩ := entry
      by_cases same : other = name
      · exact ⟨node, by simp [find?, same]⟩
      · simp only [names, List.map_cons, List.mem_cons, Ne.symm same, false_or] at member
        obtain ⟨inner, found⟩ := ih member
        exact ⟨inner, by simp [find?, same, found]⟩

/-- Something lies under every name that a directory lists. -/
theorem Tree.exists_node?_of_mem_children {tree : Tree} {directory : Location} {name : Text}
    (member : name ∈ tree.children directory) :
    ∃ node, tree.node? (directory ++ [name]) = some node := by
  unfold Tree.children at member
  split at member
  · rename_i node found
    obtain ⟨inner, held⟩ := Entries.exists_find? member
    refine ⟨inner, ?_⟩
    rw [Tree.node?, Node.at?_append]
    rw [Tree.node?] at found
    simp [found, held]
  · simp at member

theorem Node.Proper.at? {node inner : Node} {location : Location} (proper : node.Proper)
    (found : node.at? location = some inner) : inner.Proper := by
  induction location generalizing node with
  | nil =>
      simp only [Node.at?, Option.some.injEq] at found
      exact found ▸ proper
  | cons name rest ih =>
      obtain ⟨next, held, below⟩ := Option.bind_eq_some_iff.mp found
      exact ih (proper.entries.2.find? held).2 below

theorem Tree.isEntryName_of_node? {tree : Tree} {directory : Location} {name : Text} {node : Node}
    (found : tree.node? (directory ++ [name]) = some node) : IsEntryName name := by
  rw [Tree.node?, Node.at?_append] at found
  obtain ⟨outer, held, inside⟩ := Option.bind_eq_some_iff.mp found
  exact ((Node.Proper.at? tree.proper held).entries.2.find? inside).1

theorem Tree.isEntryName_of_mem_children {tree : Tree} {directory : Location} {name : Text}
    (member : name ∈ tree.children directory) : IsEntryName name := by
  obtain ⟨node, found⟩ := Tree.exists_node?_of_mem_children member
  exact Tree.isEntryName_of_node? found

namespace FileSystem

/-- The same tree with no faults in it. -/
def faultless (system : FileSystem) : FileSystem := { system with faults := [] }

variable {system : FileSystem} {path directory : Path} {location base target : Location} {name : Text}

section Names

/-- A name behind names that lead to a directory leads one level further down, unless it is a link. -/
theorem followNames_append {follow : Location → Text → List Text → Except FileCause Location}
    {node : Node} (inside : system.tree.isDir location = true) (named : name ≠ Path.up)
    (found : system.tree.node? (location ++ [name]) = some node)
    (solid : ∀ target, node ≠ .link target)
    (further : ∀ place target rest, follow place target rest = .ok location →
      follow place target (rest ++ [name]) = .ok (location ++ [name]))
    {start : Location} {names : List Text}
    (followed : system.followNames follow start names = .ok location) :
    system.followNames follow start (names ++ [name]) = .ok (location ++ [name]) := by
  induction names generalizing start with
  | nil =>
      cases followed
      cases node with
      | link target => exact absurd rfl (solid target)
      | dir entries => simp [followNames, inside, named, found]
      | file content => simp [followNames, inside, named, found]
      | other => simp [followNames, inside, named, found]
  | cons first rest ih =>
      simp only [List.cons_append, followNames] at followed ⊢
      by_cases here : system.tree.isDir start = true
      · rw [if_pos here] at followed ⊢
        by_cases climbing : first = Path.up
        · rw [if_pos climbing] at followed ⊢
          exact ih followed
        · rw [if_neg climbing] at followed ⊢
          cases held : system.tree.node? (start ++ [first]) with
          | none => simp [held] at followed
          | some step =>
              rw [held] at followed
              cases step with
              | link target => exact further _ _ _ followed
              | dir entries => exact ih followed
              | file content => exact ih followed
              | other => exact ih followed
      · rw [if_neg here] at followed
        cases followed

theorem followWithin_append {node : Node} (inside : system.tree.isDir location = true)
    (named : name ≠ Path.up) (found : system.tree.node? (location ++ [name]) = some node)
    (solid : ∀ target, node ≠ .link target) {links : Nat} {start : Location} {names : List Text}
    (followed : system.followWithin links start names = .ok location) :
    system.followWithin links start (names ++ [name]) = .ok (location ++ [name]) := by
  induction links generalizing start names with
  | zero => exact followNames_append inside named found solid (by simp) followed
  | succ links ih =>
      refine followNames_append inside named found solid ?_ followed
      intro place target rest reached
      obtain ⟨middle, further, arrived⟩ := bind_eq_ok.mp reached
      split at arrived
      · cases arrived
      · cases arrived
        rw [← List.append_assoc]
        exact bind_eq_ok.mpr ⟨_, ih further, if_neg (by simp)⟩

/-- An entry of a directory is where its path leads, unless it is a link. -/
theorem resolve_append {node : Node} (resolved : system.resolve path = .ok location)
    (inside : system.tree.isDir location = true) (named : IsEntryName name)
    (found : system.tree.node? (location ++ [name]) = some node)
    (solid : ∀ target, node ≠ .link target) :
    system.resolve (path ++ Path.ofText name) = .ok (location ++ [name]) := by
  rw [resolve, Path.names_append_ofText system.current path named.1]
  exact followWithin_append inside named.2.1 found solid resolved

end Names

section Faults

/-- The path names the location: it leads there, or it is the path of the very entry that lies there. -/
def Names (system : FileSystem) (path : Path) (location : Location) : Prop :=
  system.resolve path = .ok location ∨
    ∃ directory name base, path = directory ++ Path.ofText name ∧
      system.resolve directory = .ok base ∧ location = base ++ [name]

/-- A fault on an entry of a directory, or on what the path of that entry leads to, with this cause. -/
def FaultAt (system : FileSystem) (directory : Path) (base : Location) (name : Text)
    (cause : FileCause) : Prop :=
  ∃ fault ∈ system.faults, fault.cause = cause ∧
    (fault.location = base ++ [name] ∨
      system.resolve (directory ++ Path.ofText name) = .ok fault.location)

theorem exists_fault_of_guard {kind : FaultKind} {cause : FileCause}
    (refused : system.guard kind location = .error cause) :
    ∃ fault ∈ system.faults, fault.cause = cause ∧ fault.location = location := by
  unfold guard at refused
  cases found : system.fault? kind location with
  | none => simp [found] at refused
  | some held =>
      rw [found] at refused
      cases refused
      obtain ⟨fault, first, rfl⟩ := Option.map_eq_some_iff.mp found
      have place := List.find?_some first
      simp only [decide_eq_true_eq] at place
      exact ⟨fault, List.mem_reverse.mp (List.mem_of_find?_eq_some first), rfl, place.2⟩

theorem exists_fault_of_iterationFault? {after : Nat} {cause : FileCause}
    (found : system.iterationFault? location = some (after, cause)) :
    ∃ fault ∈ system.faults, fault.cause = cause ∧ fault.location = location := by
  obtain ⟨fault, member, shape⟩ := List.exists_of_findSome?_eq_some found
  refine ⟨fault, List.mem_reverse.mp member, ?_⟩
  split at shape
  · split at shape
    · rename_i place
      cases shape
      exact ⟨rfl, place⟩
    · cases shape
  · cases shape

theorem followNames_faultless (system : FileSystem) :
    system.faultless.followNames = system.followNames := by
  funext follow start names
  induction names generalizing start with
  | nil => rfl
  | cons name rest ih =>
      simp only [followNames, ih]
      rfl

theorem followWithin_faultless (system : FileSystem) (links : Nat) :
    system.faultless.followWithin links = system.followWithin links := by
  induction links with
  | zero => simp only [followWithin, followNames_faultless]
  | succ links ih =>
      simp only [followWithin, followNames_faultless, ih]
      rfl

/-- Faults do not change where paths lead. -/
theorem resolve_faultless (system : FileSystem) (path : Path) :
    system.faultless.resolve path = system.resolve path := by
  rw [resolve, followWithin_faultless]
  rfl

theorem guard_faultless (system : FileSystem) (kind : FaultKind) (location : Location) :
    system.faultless.guard kind location = .ok () := rfl

/-- How the kind of a listed entry is found out, and what comes of it. -/
inductive Inspects (system : FileSystem) (follow : Bool) (directory : Path) (base : Location)
    (name : Text) : Except FileCause EntryKind → Prop where
  | refused {cause : FileCause} (refused : system.guard .entryKind (base ++ [name]) = .error cause) :
      Inspects system follow directory base name (.error cause)
  | solid (allowed : system.guard .entryKind (base ++ [name]) = .ok ())
      (solid : ∀ target, system.tree.node? (base ++ [name]) ≠ some (.link target)) :
      Inspects system follow directory base name (.ok (system.kindAt (base ++ [name])))
  | unfollowed {text : Text} (allowed : system.guard .entryKind (base ++ [name]) = .ok ())
      (link : system.tree.node? (base ++ [name]) = some (.link text)) (stays : follow = false) :
      Inspects system follow directory base name (.ok .neither)
  | astray {text : Text} {cause : FileCause}
      (allowed : system.guard .entryKind (base ++ [name]) = .ok ())
      (link : system.tree.node? (base ++ [name]) = some (.link text)) (follows : follow = true)
      (unresolved : system.resolve (directory ++ Path.ofText name) = .error cause) :
      Inspects system follow directory base name
        (if cause = .missing then .ok .neither else .error cause)
  | hidden {text : Text} {target : Location} {cause : FileCause}
      (allowed : system.guard .entryKind (base ++ [name]) = .ok ())
      (link : system.tree.node? (base ++ [name]) = some (.link text)) (follows : follow = true)
      (resolved : system.resolve (directory ++ Path.ofText name) = .ok target)
      (refused : system.guard .status target = .error cause) :
      Inspects system follow directory base name
        (if cause = .missing then .ok .neither else .error cause)
  | reached {text : Text} {target : Location}
      (allowed : system.guard .entryKind (base ++ [name]) = .ok ())
      (link : system.tree.node? (base ++ [name]) = some (.link text)) (follows : follow = true)
      (resolved : system.resolve (directory ++ Path.ofText name) = .ok target)
      (shown : system.guard .status target = .ok ()) :
      Inspects system follow directory base name (.ok (system.kindAt target))

theorem inspects_entryKind (system : FileSystem) (follow : Bool) (directory : Path)
    (base : Location) (name : Text) :
    system.Inspects follow directory base name (system.entryKind follow directory base name) := by
  unfold entryKind
  simp only [bind, Except.bind, pure, Except.pure, throw, throwThe, MonadExceptOf.throw]
  cases allowed : system.guard .entryKind (base ++ [name]) with
  | error cause => exact .refused allowed
  | ok _ =>
      simp only
      cases node : system.tree.node? (base ++ [name]) with
      | none => exact .solid allowed (by simp [node])
      | some held =>
          cases held with
          | dir entries => exact .solid allowed (by simp [node])
          | file content => exact .solid allowed (by simp [node])
          | other => exact .solid allowed (by simp [node])
          | link text =>
              cases follow with
              | false => exact .unfollowed allowed node rfl
              | true =>
                  cases resolved : system.resolve (directory ++ Path.ofText name) with
                  | error cause =>
                      have result := Inspects.astray allowed node rfl resolved
                      cases cause <;> exact result
                  | ok target =>
                      simp only
                      cases shown : system.guard .status target with
                      | error cause =>
                          have result := Inspects.hidden allowed node rfl resolved shown
                          cases cause <;> exact result
                      | ok _ => exact .reached allowed node rfl resolved shown

/-- How listing a directory begins, and what it will give. -/
inductive Lists (system : FileSystem) (location : Location) : Except FileCause Listing → Prop where
  | outside (outside : system.tree.isDir location = false) :
      Lists system location (.error .notDirectory)
  | refused {cause : FileCause} (inside : system.tree.isDir location = true)
      (refused : system.guard .list location = .error cause) : Lists system location (.error cause)
  | whole (inside : system.tree.isDir location = true)
      (allowed : system.guard .list location = .ok ()) :
      Lists system location (.ok ⟨system.tree.children location, none⟩)
  | broken {after : Nat} {cause : FileCause} (inside : system.tree.isDir location = true)
      (allowed : system.guard .list location = .ok ())
      (breaks : system.iterationFault? location = some (after, cause)) :
      Lists system location (.ok ⟨(system.tree.children location).take after, some cause⟩)

theorem lists_listAt (system : FileSystem) (location : Location) :
    system.Lists location (system.listAt location) := by
  unfold listAt
  simp only [bind, Except.bind, pure, Except.pure, throw, throwThe, MonadExceptOf.throw]
  cases inside : system.tree.isDir location with
  | false => exact .outside inside
  | true =>
      cases allowed : system.guard .list location with
      | error cause => exact .refused inside allowed
      | ok _ =>
          cases breaks : system.iterationFault? location with
          | none => exact .whole inside allowed
          | some fault =>
              obtain ⟨after, cause⟩ := fault
              simp only [Bool.not_true, Bool.false_eq_true, if_false]
              split
              · exact .broken inside allowed breaks
              · exact .whole inside allowed

theorem listAt_faultless (inside : system.tree.isDir location = true) :
    system.faultless.listAt location = .ok ⟨system.tree.children location, none⟩ := by
  cases listed : system.faultless.listAt location with
  | error cause =>
      have lists := lists_listAt system.faultless location
      rw [listed] at lists
      cases lists with
      | outside outside => simp [faultless, inside] at outside
      | refused _ refused => cases refused
  | ok listing =>
      have lists := lists_listAt system.faultless location
      rw [listed] at lists
      cases lists with
      | whole => rfl
      | broken _ _ breaks => cases breaks

theorem entryKind_faultless_eq (system : FileSystem) (follow : Bool) (directory : Path)
    (base : Location) (name : Text) :
    system.faultless.entryKind follow directory base name =
      match system.tree.node? (base ++ [name]) with
      | some (.link _) =>
          if follow then
            match system.resolve (directory ++ Path.ofText name) with
            | .ok target => .ok (system.kindAt target)
            | .error cause => if cause = .missing then .ok .neither else .error cause
          else .ok .neither
      | _ => .ok (system.kindAt (base ++ [name])) := by
  have inspects := inspects_entryKind system.faultless follow directory base name
  generalize system.faultless.entryKind follow directory base name = result at inspects ⊢
  cases inspects with
  | refused refused => cases refused
  | hidden _ _ _ _ refused => cases refused
  | solid _ solid =>
      split
      · rename_i target link
        exact absurd link (solid target)
      · rfl
  | unfollowed _ link stays =>
      change system.tree.node? _ = _ at link
      simp [link, stays]
  | astray _ link follows unresolved =>
      change system.tree.node? _ = _ at link
      rw [resolve_faultless] at unresolved
      simp [link, follows, unresolved]
  | reached _ link follows resolved _ =>
      change system.tree.node? _ = _ at link
      rw [resolve_faultless] at resolved
      simp [link, follows, resolved]
      rfl

/-- An entry is what it would be without faults, unless a fault on it is reported. A fault that makes
what it lies on look missing is the exception: it may go unreported. -/
theorem entryKind_faultless (present : ∀ fault ∈ system.faults, fault.cause ≠ .missing)
    (follow : Bool) (directory : Path) (base : Location) (name : Text) :
    system.faultless.entryKind follow directory base name =
        system.entryKind follow directory base name ∨
      ∃ cause, system.entryKind follow directory base name = .error cause ∧
        system.FaultAt directory base name cause := by
  have faulty := inspects_entryKind system follow directory base name
  rw [entryKind_faultless_eq]
  generalize system.entryKind follow directory base name = given at faulty ⊢
  cases faulty with
  | refused refused =>
      obtain ⟨fault, member, same, place⟩ := exists_fault_of_guard refused
      exact .inr ⟨_, rfl, fault, member, same, .inl place⟩
  | hidden _ _ _ resolved refused =>
      obtain ⟨fault, member, rfl, rfl⟩ := exists_fault_of_guard refused
      exact .inr ⟨_, if_neg (present fault member), fault, member, rfl, .inr resolved⟩
  | solid _ solid =>
      left
      split
      · rename_i target link
        exact absurd link (solid target)
      · rfl
  | unfollowed _ link stays => exact .inl (by simp [link, stays])
  | astray _ link follows unresolved => exact .inl (by simp [link, follows, unresolved])
  | reached _ link follows resolved _ => exact .inl (by simp [link, follows, resolved])

end Faults

section Calls

/-- A call succeeds just if its path can be passed on and the file system answers. -/
theorem call_eq_ok {value : Type} {given : value} {answer : Except FileCause value} :
    call path answer = .ok given ↔ Char.ofNat 0 ∉ path.text ∧ answer = .ok given := by
  unfold call
  split
  · rename_i nul
    exact iff_of_false nofun fun clear => clear.1 nul
  · rename_i clear
    rw [about, mapError_eq_ok, and_iff_right clear]

theorem call_eq_embeddedNul {value : Type} {answer : Except FileCause value} :
    call path answer = .error .embeddedNul ↔ Char.ofNat 0 ∈ path.text := by
  unfold call
  split
  · rename_i nul
    exact iff_of_true rfl nul
  · rename_i clear
    refine iff_of_false ?_ clear
    cases answer <;> exact nofun

theorem status_eq_embeddedNul : system.status path = .error .embeddedNul ↔ Char.ofNat 0 ∈ path.text :=
  call_eq_embeddedNul

theorem status_eq_ok {node : Option Node} :
    system.status path = .ok (location, node) ↔
      Char.ofNat 0 ∉ path.text ∧ system.resolve path = .ok location ∧
        system.guard .status location = .ok () ∧ node = system.tree.node? location := by
  rw [status, call_eq_ok, and_congr_right_iff]
  intro _
  constructor
  · intro found
    obtain ⟨reached, resolved, found⟩ := bind_eq_ok.mp found
    obtain ⟨_, shown, found⟩ := bind_eq_ok.mp found
    cases found
    exact ⟨resolved, shown, rfl⟩
  · rintro ⟨resolved, shown, rfl⟩
    exact bind_eq_ok.mpr ⟨_, resolved, bind_eq_ok.mpr ⟨_, shown, rfl⟩⟩

theorem resolve_of_status {node : Option Node} (found : system.status path = .ok (location, node)) :
    system.resolve path = .ok location ∧ system.guard .status location = .ok () ∧
      node = system.tree.node? location := (status_eq_ok.mp found).2

end Calls

section Kinds

theorem kindAt_eq_dir : system.kindAt location = .dir target ↔
    target = location ∧ system.tree.isDir location = true := by
  unfold kindAt Tree.isDir
  cases node : system.tree.node? location with
  | none => simp
  | some held => cases held <;> simp [eq_comm]

variable (resolved : system.resolve directory = .ok base)
  (inside : system.tree.isDir base = true) (named : IsEntryName name)

include resolved inside named

/-- An entry that is taken for a directory is one, and its path leads there. -/
theorem resolve_of_entryKind {follow : Bool}
    (kind : system.entryKind follow directory base name = .ok (.dir target)) :
    system.resolve (directory ++ Path.ofText name) = .ok target ∧
      system.tree.isDir target = true := by
  have inspects := inspects_entryKind system follow directory base name
  generalize system.entryKind follow directory base name = result at inspects kind
  cases inspects with
  | solid _ solid =>
      obtain ⟨rfl, held⟩ := kindAt_eq_dir.mp (Except.ok.inj kind)
      have found := held
      unfold Tree.isDir at found
      split at found
      · rename_i entries node
        exact ⟨resolve_append resolved inside named node (by simp), held⟩
      · cases found
  | reached _ _ _ reached _ =>
      obtain ⟨rfl, held⟩ := kindAt_eq_dir.mp (Except.ok.inj kind)
      exact ⟨reached, held⟩
  | refused => cases kind
  | unfollowed => cases kind
  | astray => split at kind <;> cases kind
  | hidden => split at kind <;> cases kind

/-- With links followed, an entry is taken for a directory, and a directory that can be looked at, exactly
when its path leads to one and no fault is in the way. -/
theorem entryKind_eq_dir_iff (listed : name ∈ system.tree.children base) :
    system.entryKind true directory base name = .ok (.dir target) ∧
        system.guard .status target = .ok () ↔
      system.guard .entryKind (base ++ [name]) = .ok () ∧
        system.resolve (directory ++ Path.ofText name) = .ok target ∧
        system.tree.isDir target = true ∧ system.guard .status target = .ok () := by
  constructor
  · rintro ⟨kind, shown⟩
    obtain ⟨reached, held⟩ := resolve_of_entryKind resolved inside named kind
    refine ⟨?_, reached, held, shown⟩
    have inspects := inspects_entryKind system true directory base name
    generalize system.entryKind true directory base name = result at inspects kind
    cases inspects with
    | refused => cases kind
    | solid allowed => exact allowed
    | unfollowed allowed => exact allowed
    | astray allowed => exact allowed
    | hidden allowed => exact allowed
    | reached allowed => exact allowed
  · rintro ⟨allowed, reached, held, shown⟩
    refine ⟨?_, shown⟩
    have inspects := inspects_entryKind system true directory base name
    generalize system.entryKind true directory base name = result at inspects ⊢
    cases inspects with
    | refused refused => simp [allowed] at refused
    | solid _ solid =>
        obtain ⟨node, found⟩ := Tree.exists_node?_of_mem_children listed
        have own := resolve_append resolved inside named found fun text link =>
          solid text (link ▸ found)
        cases reached.symm.trans own
        rw [kindAt_eq_dir.mpr ⟨rfl, held⟩]
    | unfollowed _ _ stays => cases stays
    | astray _ _ _ unresolved => cases reached.symm.trans unresolved
    | hidden _ _ _ other refused =>
        cases reached.symm.trans other
        simp [shown] at refused
    | reached _ _ _ other _ =>
        cases reached.symm.trans other
        rw [kindAt_eq_dir.mpr ⟨rfl, held⟩]

end Kinds

end FileSystem

end PathSearch
