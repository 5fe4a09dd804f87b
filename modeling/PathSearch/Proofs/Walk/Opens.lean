import PathSearch.Proofs.Tree.Resolve
import PathSearch.Proofs.Walk.Below
import PathSearch.Proofs.Walk.Visit

/-!
The directories that a walk lists, and with them all that it reports: what becomes of every entry of such
a directory, and of every listing that breaks off. Each of these directories is reached by one path only,
and its path leads to it.
-/

namespace PathSearch

namespace Path

variable {root path directory other : Path} {name otherName : Text}

theorem length_names_append (directory : Path) (named : IsEntryName name) :
    (directory ++ ofText name).names.length = directory.names.length + 1 := by
  simp [append_ofText_of_isName directory named.1, child]

theorem Below.trans (first : root.Below directory) (second : directory.Below path) :
    root.Below path := by
  obtain ⟨anchors, names, split, named⟩ := first
  obtain ⟨otherAnchors, others, otherSplit, otherNamed⟩ := second
  refine ⟨otherAnchors.trans anchors, names ++ others, by rw [otherSplit, split, List.append_assoc], ?_⟩
  intro name member
  rcases List.mem_append.mp member with member | member
  · exact named name member
  · exact otherNamed name member

theorem Below.length_le (below : root.Below path) : root.names.length ≤ path.names.length := by
  obtain ⟨-, names, split, -⟩ := below
  simp [split]

theorem Below.eq_of_length_le (below : root.Below path)
    (short : path.names.length ≤ root.names.length) : path = root := by
  obtain ⟨anchors, names, split, -⟩ := below
  have none : names = [] := List.length_eq_zero_iff.mp (by
    have total := congrArg List.length split
    simp only [List.length_append] at total
    omega)
  exact ext anchors (by simp [split, none])

/-- What lies above an entry is the entry itself or lies above its directory. -/
theorem below_append_iff (named : IsEntryName name) :
    path.Below (directory ++ ofText name) ↔ path = directory ++ ofText name ∨ path.Below directory := by
  constructor
  · intro below
    obtain ⟨anchors, names, split, entries⟩ := below
    rw [append_ofText_of_isName directory named.1] at anchors split ⊢
    rcases List.eq_nil_or_concat names with rfl | ⟨front, last, rfl⟩
    · exact .inl (ext anchors.symm (by rw [split, List.append_nil]))
    · refine .inr ⟨anchors, front, ?_, fun other member => entries other (by simp [member])⟩
      simp only [child, List.concat_eq_append, ← List.append_assoc] at split
      exact (List.append_inj' split rfl).1
  · rintro (rfl | below)
    · exact .refl _
    · exact below.append named

end Path

namespace Walk

variable {system : FileSystem} {options : WalkOptions} {root : Path} {frame inner : Frame}
  {above : List Location} {name : Text}

/-- The entry `name` of a directory is one that the walk goes into, as `inner`. A link is followed only
to a directory that can be looked at and that the walk is not in already. -/
structure Enters (system : FileSystem) (options : WalkOptions) (frame : Frame)
    (above : List Location) (name : Text) (inner : Frame) : Prop where
  path : inner.path = frame.path ++ Path.ofText name
  depth : inner.depth = frame.depth + 1
  kind : system.entryKind options.followLinks frame.path frame.location name =
    .ok (.dir inner.location)
  deep : options.descendsBelow frame.depth = true
  free : options.followLinks = true →
    system.guard .status inner.location = .ok () ∧ inner.location ∉ frame.location :: above
  listed : system.listAt inner.location = .ok inner.listing

/-- What the walk goes into does not depend on the names still to come. -/
theorem Enters.relisted (enters : Enters system options frame above name inner)
    (listing : FileSystem.Listing) :
    Enters system options { frame with listing := listing } above name inner :=
  ⟨enters.path, enters.depth, enters.kind, enters.deep, enters.free, enters.listed⟩

/-- The directories that a walk lists, each before any of its names is taken, and with the locations of
the directories around it, nearest first. -/
inductive Opens (system : FileSystem) (options : WalkOptions) (root : Path) :
    Frame → List Location → Prop where
  | root {location : Location} {entries : Entries} {listing : FileSystem.Listing}
      (found : system.status root = .ok (location, some (.dir entries)))
      (deep : options.descendsBelow 0 = true) (listed : system.listAt location = .ok listing) :
      Opens system options root ⟨root, location, 1, listing⟩ []
  | entry {frame inner : Frame} {above : List Location} {name : Text}
      (opened : Opens system options root frame above) (member : name ∈ frame.listing.names)
      (enters : Enters system options frame above name inner) :
      Opens system options root inner (frame.location :: above)

theorem enters_of_visit (entered : (visit system options frame above name).2 = some inner) :
    Enters system options frame above name inner := by
  have visits := visits_visit system options frame above name
  generalize visit system options frame above name = result at visits entered
  cases visits with
  | entered kind deep free listed =>
      cases entered
      exact ⟨rfl, rfl, kind, deep, free, listed⟩
  | _ => cases entered

theorem Enters.visit_eq (enters : Enters system options frame above name inner) :
    visit system options frame above name = (itemsOf options inner.path false, some inner) := by
  obtain ⟨path, depth, kind, deep, free, listed⟩ := enters
  have shape : inner = ⟨inner.path, inner.location, inner.depth, inner.listing⟩ := rfl
  rw [path, depth] at shape
  rw [(Visits.entered kind deep free listed).visit_eq, path, ← shape]

namespace Opens

theorem listed (opened : Opens system options root frame above) :
    system.listAt frame.location = .ok frame.listing := by
  cases opened with
  | root _ _ listed => exact listed
  | entry _ _ enters => exact enters.listed

theorem mem_children (opened : Opens system options root frame above)
    (member : name ∈ frame.listing.names) : name ∈ system.tree.children frame.location :=
  (FileSystem.names_prefix_of_listAt opened.listed).subset member

theorem isEntryName (opened : Opens system options root frame above)
    (member : name ∈ frame.listing.names) : IsEntryName name :=
  Tree.isEntryName_of_mem_children (opened.mem_children member)

theorem inside (opened : Opens system options root frame above) :
    system.tree.isDir frame.location = true :=
  isDir_of_listAt system opened.listed

theorem below_root (opened : Opens system options root frame above) : root.Below frame.path := by
  induction opened with
  | root => exact .refl root
  | entry outer member enters ih =>
      rw [enters.path]
      exact ih.append (outer.isEntryName member)

theorem length_eq (opened : Opens system options root frame above) :
    frame.path.names.length = root.names.length + above.length := by
  induction opened with
  | root => rfl
  | entry outer member enters ih =>
      rw [enters.path, Path.length_names_append _ (outer.isEntryName member), ih, List.length_cons,
        Nat.add_assoc]

/-- The path of a directory leads to it. -/
theorem resolved (opened : Opens system options root frame above) :
    system.resolve frame.path = .ok frame.location := by
  induction opened with
  | root found => exact (FileSystem.resolve_of_status found).1
  | entry outer member enters ih =>
      rw [enters.path]
      exact (FileSystem.resolve_of_entryKind ih outer.inside (outer.isEntryName member) enters.kind).1

/-- The locations on a branch are those that the paths between the root and its end lead to. -/
theorem mem_iff_exists_above (opened : Opens system options root frame above) {target : Location} :
    target ∈ frame.location :: above ↔
      ∃ path, root.Below path ∧ path.Below frame.path ∧ system.resolve path = .ok target := by
  induction opened generalizing target with
  | root found =>
      have own := (FileSystem.resolve_of_status found).1
      constructor
      · intro member
        cases List.mem_singleton.mp member
        exact ⟨root, .refl _, .refl _, own⟩
      · rintro ⟨path, below, ending, resolved⟩
        obtain rfl := below.eq_of_length_le ending.length_le
        exact List.mem_singleton.mpr (Except.ok.inj (resolved.symm.trans own))
  | @entry frame inner above name outer member enters ih =>
      have named := outer.isEntryName member
      have own := (outer.entry member enters).resolved
      have around := outer.below_root
      rw [List.mem_cons, ih]
      constructor
      · rintro (rfl | ⟨path, below, ending, resolved⟩)
        · exact ⟨inner.path, (outer.entry member enters).below_root, .refl _, own⟩
        · exact ⟨path, below, enters.path ▸ ending.append named, resolved⟩
      · rintro ⟨path, below, ending, resolved⟩
        rw [enters.path, Path.below_append_iff named, ← enters.path] at ending
        rcases ending with rfl | ending
        · exact .inl (Except.ok.inj (resolved.symm.trans own))
        · exact .inr ⟨path, below, ending, resolved⟩

/-- A path is that of one directory of the walk only. -/
theorem unique (opened : Opens system options root frame above) {other : Frame}
    {around : List Location} (again : Opens system options root other around)
    (same : other.path = frame.path) : other = frame ∧ around = above := by
  induction opened generalizing other around with
  | root found deep listed =>
      cases again with
      | root otherFound _ otherListed =>
          cases found.symm.trans otherFound
          cases listed.symm.trans otherListed
          exact ⟨rfl, rfl⟩
      | entry outer member enters =>
          have length := (outer.entry member enters).length_eq
          rw [same, List.length_cons] at length
          simp only at length
          omega
  | @entry frame inner above name outer member enters ih =>
      have path := enters.path
      cases again with
      | root =>
          have length := (outer.entry member enters).length_eq
          rw [← same, List.length_cons] at length
          simp only at length
          omega
      | @entry otherFrame _ otherAbove otherName otherOuter otherMember otherEnters =>
          have otherPath := otherEnters.path
          rw [same, path, eq_comm, Path.append_ofText_inj (otherOuter.isEntryName otherMember)
            (outer.isEntryName member)] at otherPath
          obtain ⟨paths, rfl⟩ := otherPath
          obtain ⟨rfl, rfl⟩ := ih otherOuter paths
          have shape := enters.visit_eq.symm.trans otherEnters.visit_eq
          cases (Prod.mk.inj shape).2
          exact ⟨rfl, rfl⟩

end Opens

end Walk

end PathSearch
