import PathSearch.Proofs.Tree.Resolve
import PathSearch.Walk.Stream

namespace PathSearch

/-- The directory with these names still to come. -/
def Frame.awaiting (frame : Frame) (names : List Text) : Frame :=
  { frame with listing := ⟨names, frame.listing.failure⟩ }

/-- The report of a directory whose listing has broken off. -/
def Frame.breakage (frame : Frame) : List WalkItem :=
  match frame.listing.failure with
  | none => []
  | some cause => [.failure frame.path ⟨cause, some frame.path.text⟩]

namespace WalkItem

def path : WalkItem → Path
  | .entry path _ => path
  | .failure path _ => path

def isEntry : WalkItem → Bool
  | .entry _ _ => true
  | .failure _ _ => false

end WalkItem

namespace Walk

/-!
A walk one entry at a time. What an entry comes to depends on the directory it is in and on the locations
of the directories around that one, not on the names still to come. The stack is only where the walk goes
on: what is on top of it is reported first, and then what is below.
-/

variable (system : FileSystem) (options : WalkOptions)

/-- What the walk makes of an entry of the directory `frame`, which lies in directories at the locations
`above`: the items it reports, and the directory that it goes into. -/
def visit (frame : Frame) (above : List Location) (name : Text) : List WalkItem × Option Frame :=
  let path := frame.path ++ Path.ofText name
  let entryText := FileSystem.entryText frame.path name
  match system.entryKind options.followLinks frame.path frame.location name with
  | .error cause => ([.failure path ⟨cause, some entryText⟩], none)
  | .ok .file => (itemsOf options path true, none)
  | .ok .neither => (itemsOf options path false, none)
  | .ok (.dir location) =>
      if options.descendsBelow frame.depth then
        match if options.followLinks then system.guard .status location else .ok () with
        | .error cause => ([.failure path ⟨cause, some entryText⟩], none)
        | .ok () =>
            if options.followLinks && (frame.location :: above).contains location then
              ([.failure path ⟨.linkLoop, some path.text⟩], none)
            else
              match system.listAt location with
              | .error cause =>
                  (itemsOf options path false ++ [.failure path ⟨cause, some path.text⟩], none)
              | .ok listing =>
                  (itemsOf options path false, some ⟨path, location, frame.depth + 1, listing⟩)
      else (itemsOf options path false, none)

theorem advance_of_cons {frame : Frame} {name : Text} {rest : List Text}
    (next : frame.listing.names = name :: rest) (outer : List Frame) :
    advance system options frame outer =
      ((visit system options frame (outer.map Frame.location) name).1,
        (visit system options frame (outer.map Frame.location) name).2.toList ++
          frame.awaiting rest :: outer) := by
  unfold advance visit
  rw [next]
  simp only
  cases system.entryKind options.followLinks frame.path frame.location name with
  | error cause => rfl
  | ok kind =>
      cases kind with
      | file => rfl
      | neither => rfl
      | dir location =>
          simp only
          by_cases deep : options.descendsBelow frame.depth = true
          · simp only [if_pos deep]
            unfold enter
            cases if options.followLinks then system.guard .status location else .ok () with
            | error cause => rfl
            | ok _ =>
                simp only [List.map_cons]
                split
                · rfl
                · cases system.listAt location <;> rfl
          · simp only [if_neg deep]
            rfl

theorem advance_of_nil {frame : Frame} (spent : frame.listing.names = []) (outer : List Frame) :
    advance system options frame outer = (frame.breakage, outer) := by
  unfold advance Frame.breakage
  rw [spent]
  cases frame.listing.failure <;> rfl

variable {system options} {frame : Frame} {above : List Location} {name : Text}

/-- How an entry of a directory is visited, case by case. -/
inductive Visits (system : FileSystem) (options : WalkOptions) (frame : Frame)
    (above : List Location) (name : Text) : List WalkItem × Option Frame → Prop where
  | unknown {cause : FileCause}
      (unknown : system.entryKind options.followLinks frame.path frame.location name = .error cause) :
      Visits system options frame above name
        ([.failure (frame.path ++ Path.ofText name)
          ⟨cause, some (FileSystem.entryText frame.path name)⟩], none)
  | leaf {isRegularFile : Bool}
      (kind : system.entryKind options.followLinks frame.path frame.location name =
        .ok (if isRegularFile then .file else .neither)) :
      Visits system options frame above name
        (itemsOf options (frame.path ++ Path.ofText name) isRegularFile, none)
  | shallow {target : Location}
      (kind : system.entryKind options.followLinks frame.path frame.location name = .ok (.dir target))
      (shallow : options.descendsBelow frame.depth = false) :
      Visits system options frame above name
        (itemsOf options (frame.path ++ Path.ofText name) false, none)
  | hidden {target : Location} {cause : FileCause}
      (kind : system.entryKind options.followLinks frame.path frame.location name = .ok (.dir target))
      (deep : options.descendsBelow frame.depth = true) (follows : options.followLinks = true)
      (refused : system.guard .status target = .error cause) :
      Visits system options frame above name
        ([.failure (frame.path ++ Path.ofText name)
          ⟨cause, some (FileSystem.entryText frame.path name)⟩], none)
  | circular {target : Location}
      (kind : system.entryKind options.followLinks frame.path frame.location name = .ok (.dir target))
      (deep : options.descendsBelow frame.depth = true) (follows : options.followLinks = true)
      (shown : system.guard .status target = .ok ()) (inside : target ∈ frame.location :: above) :
      Visits system options frame above name
        ([.failure (frame.path ++ Path.ofText name)
          ⟨.linkLoop, some (frame.path ++ Path.ofText name).text⟩], none)
  | closed {target : Location} {cause : FileCause}
      (kind : system.entryKind options.followLinks frame.path frame.location name = .ok (.dir target))
      (deep : options.descendsBelow frame.depth = true)
      (free : options.followLinks = true →
        system.guard .status target = .ok () ∧ target ∉ frame.location :: above)
      (refused : system.listAt target = .error cause) :
      Visits system options frame above name
        (itemsOf options (frame.path ++ Path.ofText name) false ++
          [.failure (frame.path ++ Path.ofText name)
            ⟨cause, some (frame.path ++ Path.ofText name).text⟩], none)
  | entered {target : Location} {listing : FileSystem.Listing}
      (kind : system.entryKind options.followLinks frame.path frame.location name = .ok (.dir target))
      (deep : options.descendsBelow frame.depth = true)
      (free : options.followLinks = true →
        system.guard .status target = .ok () ∧ target ∉ frame.location :: above)
      (listed : system.listAt target = .ok listing) :
      Visits system options frame above name
        (itemsOf options (frame.path ++ Path.ofText name) false,
          some ⟨frame.path ++ Path.ofText name, target, frame.depth + 1, listing⟩)

theorem visits_visit (system : FileSystem) (options : WalkOptions) (frame : Frame)
    (above : List Location) (name : Text) :
    Visits system options frame above name (visit system options frame above name) := by
  unfold visit
  simp only
  cases kind : system.entryKind options.followLinks frame.path frame.location name with
  | error cause => exact .unknown kind
  | ok reached =>
      cases reached with
      | file => exact @Visits.leaf _ _ _ _ _ true kind
      | neither => exact @Visits.leaf _ _ _ _ _ false kind
      | dir target =>
          simp only
          cases deep : options.descendsBelow frame.depth with
          | false => exact .shallow kind deep
          | true =>
              simp only [if_true]
              cases follows : options.followLinks with
              | false =>
                  simp only [Bool.false_eq_true, if_false, Bool.false_and]
                  have free : options.followLinks = true →
                      system.guard .status target = .ok () ∧ target ∉ frame.location :: above := by
                    simp [follows]
                  cases listed : system.listAt target with
                  | error cause => exact .closed kind deep free listed
                  | ok listing => exact .entered kind deep free listed
              | true =>
                  simp only [if_true, Bool.true_and, List.contains_eq_mem, decide_eq_true_eq]
                  cases shown : system.guard .status target with
                  | error cause => exact .hidden kind deep follows shown
                  | ok _ =>
                      simp only
                      by_cases inside : target ∈ frame.location :: above
                      · rw [if_pos inside]
                        exact .circular kind deep follows shown inside
                      · rw [if_neg inside]
                        cases listed : system.listAt target with
                        | error cause => exact .closed kind deep (fun _ => ⟨shown, inside⟩) listed
                        | ok listing => exact .entered kind deep (fun _ => ⟨shown, inside⟩) listed

theorem Visits.visit_eq {result : List WalkItem × Option Frame}
    (visits : Visits system options frame above name result) :
    visit system options frame above name = result := by
  unfold visit
  -- What the entry is goes first: whether links are followed stands in that question too.
  cases visits with
  | unknown unknown => simp only [unknown]
  | @leaf isRegularFile kind => cases isRegularFile <;> simp [kind]
  | shallow kind shallow => simp [kind, shallow]
  | hidden kind deep follows refused =>
      simp only [kind, deep, if_true]
      simp [follows, refused]
  | circular kind deep follows shown inside =>
      simp only [kind, deep, if_true]
      rw [if_pos follows, shown]
      simp [follows, inside]
  | closed kind deep free refused =>
      simp only [kind, deep, if_true]
      cases follows : options.followLinks with
      | false => simp [refused]
      | true => simp [(free follows).1, (free follows).2, refused]
  | entered kind deep free listed =>
      simp only [kind, deep, if_true]
      cases follows : options.followLinks with
      | false => simp [listed]
      | true => simp [(free follows).1, (free follows).2, listed]

/-- How a walk starts, case by case. -/
inductive Starts (system : FileSystem) (options : WalkOptions) (root : Path) :
    Except CallError Walk → Prop where
  | hidden {error : CallError} (refused : system.status root = .error error) :
      Starts system options root (.error error)
  | file {location : Location} {content : ByteArray}
      (found : system.status root = .ok (location, some (.file content))) :
      Starts system options root (.ok ⟨itemsOf options root true, []⟩)
  | other {location : Location} {node : Option Node}
      (found : system.status root = .ok (location, node))
      (directory : ∀ entries, node ≠ some (.dir entries))
      (file : ∀ content, node ≠ some (.file content)) :
      Starts system options root (.ok ⟨itemsOf options root false, []⟩)
  | shallow {location : Location} {entries : Entries}
      (found : system.status root = .ok (location, some (.dir entries)))
      (shallow : options.descendsBelow 0 = false) :
      Starts system options root (.ok ⟨itemsOf options root false, []⟩)
  | closed {location : Location} {entries : Entries} {cause : FileCause}
      (found : system.status root = .ok (location, some (.dir entries)))
      (deep : options.descendsBelow 0 = true) (refused : system.listAt location = .error cause) :
      Starts system options root (.error (.failed ⟨cause, some root.text⟩))
  | opened {location : Location} {entries : Entries} {listing : FileSystem.Listing}
      (found : system.status root = .ok (location, some (.dir entries)))
      (deep : options.descendsBelow 0 = true) (listed : system.listAt location = .ok listing) :
      Starts system options root
        (.ok ⟨itemsOf options root false, [⟨root, location, 1, listing⟩]⟩)

theorem starts_start (system : FileSystem) (options : WalkOptions) (root : Path) :
    Starts system options root (start system options root) := by
  unfold start
  cases found : system.status root with
  | error error => exact .hidden found
  | ok reached =>
      obtain ⟨location, node⟩ := reached
      simp only [bind, Except.bind, pure, Except.pure]
      split
      · cases deep : options.descendsBelow 0 with
        | false => exact .shallow found deep
        | true =>
            cases listed : system.listAt location with
            | error cause => exact .closed found deep listed
            | ok listing => exact .opened found deep listed
      · exact .file found
      · rename_i directory file
        exact .other found directory file

theorem Starts.start_eq {result : Except CallError Walk} (starts : Starts system options root result) :
    start system options root = result := by
  cases starts with
  | hidden refused => simp [start, refused, bind, Except.bind]
  | file found => simp [start, found, bind, Except.bind, pure, Except.pure]
  | other found directory file => simp only [start, found, bind, Except.bind, pure, Except.pure]
  | shallow found shallow => simp [start, found, shallow, bind, Except.bind, pure, Except.pure]
  | closed found deep refused =>
      simp only [start, found, deep, refused, bind, Except.bind, pure, Except.pure, if_true]
      rfl
  | opened found deep listed =>
      simp only [start, found, deep, listed, bind, Except.bind, pure, Except.pure, if_true]
      rfl

/-- A walk is refused for a NUL just if there is one in the path of its root. -/
theorem start_eq_embeddedNul :
    start system options root = .error .embeddedNul ↔ Char.ofNat 0 ∈ root.text := by
  rw [← @FileSystem.status_eq_embeddedNul system]
  have starts := starts_start system options root
  generalize start system options root = result at starts
  cases starts with
  | hidden refused => rw [refused, Except.error.injEq, Except.error.injEq]
  | file found => rw [found]; exact iff_of_false nofun nofun
  | other found => rw [found]; exact iff_of_false nofun nofun
  | shallow found => rw [found]; exact iff_of_false nofun nofun
  | closed found => rw [found]; exact iff_of_false nofun nofun
  | opened found => rw [found]; exact iff_of_false nofun nofun

theorem itemsOf_path {path : Path} {isRegularFile : Bool} {item : WalkItem}
    (member : item ∈ itemsOf options path isRegularFile) :
    item = .entry path isRegularFile := by
  unfold itemsOf at member
  split at member
  · exact List.mem_singleton.mp member
  · simp at member

theorem entries_breakage (frame : Frame) : frame.breakage.filter WalkItem.isEntry = [] := by
  unfold Frame.breakage
  split <;> rfl

/-- Whatever is reported about an entry is reported under its own path. -/
theorem path_of_mem_visit {item : WalkItem} (member : item ∈ (visit system options frame above name).1) :
    item.path = frame.path ++ Path.ofText name := by
  have visits := visits_visit system options frame above name
  generalize visit system options frame above name = result at visits member
  cases visits with
  | unknown => rw [List.mem_singleton.mp member]; rfl
  | leaf => rw [itemsOf_path member]; rfl
  | shallow => rw [itemsOf_path member]; rfl
  | hidden => rw [List.mem_singleton.mp member]; rfl
  | circular => rw [List.mem_singleton.mp member]; rfl
  | closed =>
      rcases List.mem_append.mp member with member | member
      · rw [itemsOf_path member]; rfl
      · rw [List.mem_singleton.mp member]; rfl
  | entered => rw [itemsOf_path member]; rfl

section Stream

variable (system options)

theorem toList_eq (walk : Walk) :
    toList system options walk =
      match next system options walk with
      | (none, _) => []
      | (some item, rest) => item :: toList system options rest := by
  conv => lhs; unfold toList
  split
  · rename_i taken
    rw [taken]
  · rename_i taken
    rw [taken]

theorem toList_ended : toList system options ⟨[], []⟩ = [] := by
  rw [toList_eq, next]

theorem toList_found (item : WalkItem) (found : List WalkItem) (frames : List Frame) :
    toList system options ⟨item :: found, frames⟩ =
      item :: toList system options ⟨found, frames⟩ := by
  rw [toList_eq, next]

theorem toList_append (found : List WalkItem) (frames : List Frame) :
    toList system options ⟨found, frames⟩ = found ++ toList system options ⟨[], frames⟩ := by
  induction found with
  | nil => rfl
  | cons item found ih => rw [toList_found, ih, List.cons_append]

theorem toList_advance (frame : Frame) (outer : List Frame) :
    toList system options ⟨[], frame :: outer⟩ =
      (advance system options frame outer).1 ++
        toList system options ⟨[], (advance system options frame outer).2⟩ := by
  rw [← toList_append, toList_eq, next, ← toList_eq]

/-- A directory whose names are all taken is left, and what is around it goes on. -/
theorem toList_of_nil {frame : Frame} (spent : frame.listing.names = []) (outer : List Frame) :
    toList system options ⟨[], frame :: outer⟩ =
      frame.breakage ++ toList system options ⟨[], outer⟩ := by
  rw [toList_advance, advance_of_nil system options spent]

theorem toList_of_cons {frame : Frame} {name : Text} {rest : List Text}
    (next : frame.listing.names = name :: rest) (outer : List Frame) :
    toList system options ⟨[], frame :: outer⟩ =
      (visit system options frame (outer.map Frame.location) name).1 ++
        toList system options ⟨[],
          (visit system options frame (outer.map Frame.location) name).2.toList ++
            frame.awaiting rest :: outer⟩ := by
  rw [toList_advance, advance_of_cons system options next]

theorem effort_of_nil {frame : Frame} (spent : frame.listing.names = []) (outer : List Frame) :
    effort system options outer < effort system options (frame :: outer) := by
  have less := effort_advance system options frame outer
  rwa [advance_of_nil system options spent] at less

theorem effort_of_cons {frame : Frame} {name : Text} {rest : List Text}
    (next : frame.listing.names = name :: rest) (outer : List Frame) :
    effort system options
        ((visit system options frame (outer.map Frame.location) name).2.toList ++
          frame.awaiting rest :: outer) < effort system options (frame :: outer) := by
  have less := effort_advance system options frame outer
  rwa [advance_of_cons system options next] at less

theorem toList_awaiting_cons (frame : Frame) (name : Text) (rest : List Text) (outer : List Frame) :
    toList system options ⟨[], frame.awaiting (name :: rest) :: outer⟩ =
      (visit system options frame (outer.map Frame.location) name).1 ++
        toList system options ⟨[],
          (visit system options frame (outer.map Frame.location) name).2.toList ++
            frame.awaiting rest :: outer⟩ :=
  toList_of_cons system options rfl outer

theorem effort_awaiting_cons (frame : Frame) (name : Text) (rest : List Text) (outer : List Frame) :
    effort system options
        ((visit system options frame (outer.map Frame.location) name).2.toList ++
          frame.awaiting rest :: outer) <
      effort system options (frame.awaiting (name :: rest) :: outer) := by
  have next : (frame.awaiting (name :: rest)).listing.names = name :: rest := rfl
  have less := effort_of_cons system options next outer
  exact less

/-- What is on top of the stack is reported first, and then what is below. -/
theorem exists_toList_append (inner outer : List Frame) :
    ∃ items, toList system options ⟨[], inner ++ outer⟩ =
      items ++ toList system options ⟨[], outer⟩ := by
  -- The stack only grows above `outer`, so the induction is on the steps left before it is bare.
  induction bound : effort system options (inner ++ outer) using Nat.strongRecOn generalizing inner with
  | ind bound ih =>
      cases inner with
      | nil => exact ⟨[], rfl⟩
      | cons frame inner =>
          subst bound
          cases names : frame.listing.names with
          | nil =>
              obtain ⟨items, listed⟩ := ih _ (effort_of_nil system options names (inner ++ outer)) inner rfl
              refine ⟨frame.breakage ++ items, ?_⟩
              rw [List.cons_append, toList_of_nil system options names, listed, List.append_assoc]
          | cons name rest =>
              have less := effort_of_cons system options names (inner ++ outer)
              rw [← List.cons_append, ← List.append_assoc] at less
              obtain ⟨items, listed⟩ := ih _ less _ rfl
              refine ⟨(visit system options frame ((inner ++ outer).map Frame.location) name).1 ++ items, ?_⟩
              rw [List.cons_append, toList_of_cons system options names, List.append_assoc, ← listed]
              simp

end Stream

end Walk

end PathSearch
