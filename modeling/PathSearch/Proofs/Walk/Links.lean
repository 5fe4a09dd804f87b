import PathSearch.Proofs.Tree.Canonical
import PathSearch.Proofs.Walk.Reports

/-!
Walks that do not follow links. Below its root such a walk goes from a directory only into directories that
lie in it, and a link is reported as an entry that is no regular file. The root is opened by way of its path,
so a root that is a link is followed all the same.
-/

namespace PathSearch

namespace FileSystem

/-- The path is that of a link, whatever the link leads to. -/
def IsLink (system : FileSystem) (path : Path) : Prop :=
  ∃ directory name target, IsEntryName name ∧ path = directory ++ Path.ofText name ∧
    system.linkIn? directory name = some target

variable {system : FileSystem} {path directory : Path} {base location : Location} {name : Text}

/-- Whether an entry is a link depends on the directory and the name alone. -/
theorem isLink_append_iff (resolved : system.resolve directory = .ok base) (named : IsEntryName name) :
    system.IsLink (directory ++ Path.ofText name) ↔
      ∃ target, system.tree.node? (base ++ [name]) = some (.link target) := by
  constructor
  · rintro ⟨other, otherName, target, otherNamed, same, link⟩
    obtain ⟨rfl, rfl⟩ := (Path.append_ofText_inj named otherNamed).mp same
    exact ⟨target, (linkIn?_eq_some resolved).mp link⟩
  · rintro ⟨target, link⟩
    exact ⟨directory, name, target, named, rfl, (linkIn?_eq_some resolved).mpr link⟩

/-- A link that is not followed is neither a directory nor a regular file. -/
theorem entryKind_of_link {target : Text} {kind : EntryKind}
    (link : system.tree.node? (base ++ [name]) = some (.link target))
    (found : system.entryKind false directory base name = .ok kind) : kind = .neither := by
  have inspects := inspects_entryKind system false directory base name
  generalize system.entryKind false directory base name = result at inspects found
  cases inspects with
  | refused => cases found
  | solid _ solid => exact absurd link (solid target)
  | unfollowed =>
      cases found
      rfl
  | astray _ _ follows => cases follows
  | hidden _ _ follows => cases follows
  | reached _ _ follows => cases follows

end FileSystem

namespace Walk

variable {system : FileSystem} {options : WalkOptions} {root path link : Path} {walk : Walk}
  {frame inner : Frame} {above : List Location} {name : Text}

/-- No entry lies below a link, a link is reported as no regular file, and no directory is listed by way of
one. -/
structure LeavesLinks (system : FileSystem) (options : WalkOptions) (root : Path) (walk : Walk) :
    Prop where
  entries : ∀ path kind, .entry path kind ∈ toList system options walk →
    ∀ link, root.Below link → link.Below path → system.IsLink link → link = path ∧ kind = false
  listed : ∀ frame above, Opens system options root frame above → ¬ system.IsLink frame.path

/-- The root is a link to a regular file, or to a directory whose entries are asked for. -/
def FollowsRoot (system : FileSystem) (options : WalkOptions) (root : Path) : Prop :=
  system.IsLink root ∧ ∃ location node, system.status root = .ok (location, some node) ∧
    ((∃ content, node = .file content) ∨
      (∃ entries, node = .dir entries) ∧ options.descendsBelow 0 = true)

section Unfollowed

variable (stays : options.followLinks = false)

include stays

theorem Enters.location_eq (enters : Enters system options frame above name inner) :
    inner.location = frame.location ++ [name] := by
  have kind := enters.kind
  rw [stays] at kind
  exact location_of_entryKind system kind

theorem Enters.not_isLink (resolved : system.resolve frame.path = .ok frame.location)
    (named : IsEntryName name) (enters : Enters system options frame above name inner) :
    ¬ system.IsLink inner.path := by
  rw [enters.path, FileSystem.isLink_append_iff resolved named]
  rintro ⟨target, held⟩
  have kind := enters.kind
  rw [stays] at kind
  cases FileSystem.entryKind_of_link held kind

/-- Between the root and a directory that the walk lists there is no link, the root apart. -/
theorem Opens.not_isLink (opened : Opens system options root frame above) (below : root.Below link)
    (inside : link.Below frame.path) (other : link ≠ root) : ¬ system.IsLink link := by
  induction opened with
  | root => exact absurd (below.eq_of_length_le inside.length_le) other
  | entry outer member enters ih =>
      have named := outer.isEntryName member
      rw [enters.path, Path.below_append_iff named] at inside
      rcases inside with rfl | inside
      · rw [← enters.path]
        exact enters.not_isLink stays outer.resolved named
      · exact ih inside

/-- A directory that the walk lists lies in that of the root, where the names of its path say. -/
theorem Opens.location_eq (opened : Opens system options root frame above) :
    ∃ location node names, system.status root = .ok (location, node) ∧
      frame.path.names = root.names ++ names ∧ frame.location = location ++ names := by
  induction opened with
  | root found => exact ⟨_, _, [], found, by simp, by simp⟩
  | @entry frame inner above name outer member enters ih =>
      obtain ⟨location, node, names, found, path, place⟩ := ih
      refine ⟨location, node, names ++ [name], found, ?_, ?_⟩
      · rw [enters.path, Path.append_ofText_of_isName _ (outer.isEntryName member).1]
        simp [Path.child, path]
      · rw [enters.location_eq stays, place, List.append_assoc]

/-- What is reported of a link is that it is no regular file, or that its kind could not be found out. -/
theorem Opens.kind_of_link (opened : Opens system options root frame above)
    (member : name ∈ frame.listing.names) {kind : Bool}
    (reported : .entry path kind ∈ (visit system options frame above name).1)
    (link : system.IsLink path) : kind = false := by
  have named := opened.isEntryName member
  obtain rfl : path = frame.path ++ Path.ofText name := path_of_mem_visit reported
  obtain ⟨target, held⟩ := (FileSystem.isLink_append_iff opened.resolved named).mp link
  have unfollowed : ∀ {found}, system.entryKind options.followLinks frame.path frame.location name =
      .ok found → found = .neither := by
    rw [stays]
    exact FileSystem.entryKind_of_link held
  have visits := visits_visit system options frame above name
  generalize visit system options frame above name = result at visits reported
  cases visits with
  | @leaf isRegularFile found =>
      cases itemsOf_path reported
      cases kind with
      | false => rfl
      | true => cases unfollowed found
  | unknown => cases List.mem_singleton.mp reported
  | shallow found => cases unfollowed found
  | hidden found => cases unfollowed found
  | circular found => cases unfollowed found
  | closed found => cases unfollowed found
  | entered found => cases unfollowed found

end Unfollowed

/-- A root that is not followed is no directory that is listed, and no regular file. -/
theorem not_opens_of_link (leaves : ¬ FollowsRoot system options root) (link : system.IsLink root) :
    ¬ Opens system options root frame above := by
  intro opened
  induction opened with
  | root found deep => exact leaves ⟨link, _, _, found, .inr ⟨⟨_, rfl⟩, deep⟩⟩
  | entry _ _ _ ih => exact ih

theorem kind_of_root (leaves : ¬ FollowsRoot system options root) (link : system.IsLink root)
    (started : start system options root = .ok walk) {kind : Bool}
    (reported : .entry path kind ∈ walk.found) : path = root ∧ kind = false := by
  have starts := starts_start system options root
  rw [started] at starts
  cases starts with
  | file found => exact absurd ⟨link, _, _, found, .inl ⟨_, rfl⟩⟩ leaves
  | other =>
      cases itemsOf_path reported
      exact ⟨rfl, rfl⟩
  | shallow =>
      cases itemsOf_path reported
      exact ⟨rfl, rfl⟩
  | opened =>
      cases itemsOf_path reported
      exact ⟨rfl, rfl⟩

/-- A walk that does not follow links leaves them alone unless its root is one that it follows; below its
root it lists only what lies in the root's own directory. -/
theorem leavesLinks_iff (stays : options.followLinks = false)
    (started : start system options root = .ok walk) :
    (LeavesLinks system options root walk ↔ ¬ FollowsRoot system options root) ∧
      ∀ frame above, Opens system options root frame above →
        ∃ location node names, system.status root = .ok (location, node) ∧
          frame.path.names = root.names ++ names ∧ frame.location = location ++ names := by
  refine ⟨⟨?_, ?_⟩, fun frame above opened => opened.location_eq stays⟩
  · rintro leaves ⟨link, location, node, found, ⟨content, rfl⟩ | ⟨⟨entries, rfl⟩, deep⟩⟩
    · cases started.symm.trans (Starts.file found).start_eq
      have reported : .entry root true ∈ toList system options ⟨itemsOf options root true, []⟩ :=
        (mem_toList_iff started).mpr (.inl (by simp [itemsOf, WalkOptions.reports]))
      cases (leaves.entries root true reported root (.refl _) (.refl _) link).2
    · have starts := starts_start system options root
      rw [started] at starts
      cases starts with
      | file other => cases found.symm.trans other
      | other other directory =>
          cases found.symm.trans other
          exact directory entries rfl
      | shallow _ shallow => simp [deep] at shallow
      | opened other _ listed => exact leaves.listed _ _ (.root other deep listed) link
  · intro unfollowed
    refine ⟨?_, ?_⟩
    · intro path kind reported link below inside held
      rcases (mem_toList_iff started).mp reported with reported | ⟨frame, above, opened, reported⟩
      · obtain ⟨⟨other, found⟩, -⟩ := start_eq_ok started
        have same := reported
        rw [found] at same
        cases itemsOf_path same
        obtain rfl := below.eq_of_length_le inside.length_le
        exact ⟨rfl, (kind_of_root unfollowed held started reported).2⟩
      · rcases reported with ⟨name, member, reported⟩ | reported
        · have place : path = frame.path ++ Path.ofText name := path_of_mem_visit reported
          have solid : ¬ system.IsLink root := fun held => not_opens_of_link unfollowed held opened
          have named := opened.isEntryName member
          rw [place, Path.below_append_iff named, ← place] at inside
          rcases inside with rfl | inside
          · exact ⟨rfl, opened.kind_of_link stays member reported held⟩
          · have other : link ≠ root := fun same => solid (same ▸ held)
            exact absurd held (opened.not_isLink stays below inside other)
        · unfold Frame.breakage at reported
          split at reported
          · cases reported
          · cases List.mem_singleton.mp reported
    · intro frame above opened held
      by_cases same : frame.path = root
      · exact not_opens_of_link unfollowed (same ▸ held) opened
      · exact opened.not_isLink stays opened.below_root (.refl _) same held

/-- The directory `d` holds a file and a link back to the root, and is walked itself: both are entries, and
only the file is regular. -/
theorem leavesLinks_in_directory :
    let tree := (Tree.empty.add [['d'], ['f']] (.file .empty)).add [['d'], ['l']] (.link ['.', '.'])
    let system : FileSystem := ⟨tree, [], .root⟩
    let options : WalkOptions := { onlyFiles := false, followLinks := false }
    let directory := Path.root ++ Path.ofText ['d']
    ∃ walk, options.followLinks = false ∧ start system options directory = .ok walk ∧
      ¬ FollowsRoot system options directory ∧ LeavesLinks system options directory walk := by
  intro tree system options directory
  have started : start system options directory =
      .ok ⟨[.entry directory false], [⟨directory, [['d']], 1, ⟨[['f'], ['l']], none⟩⟩]⟩ := rfl
  have solid : ¬ FollowsRoot system options directory := by
    rintro ⟨link, -⟩
    have resolved : system.resolve Path.root = .ok [] := rfl
    obtain ⟨target, held⟩ := (FileSystem.isLink_append_iff resolved (by decide)).mp link
    cases held
  exact ⟨_, rfl, started, solid, (leavesLinks_iff rfl started).1.mpr solid⟩

/-- A root that is a link to a directory is listed, and the file in that directory reported below the link,
though no links are to be followed. -/
theorem not_leavesLinks :
    let tree := (Tree.empty.add [['d'], ['f']] (.file .empty)).add [['l']] (.link ['d'])
    let system : FileSystem := ⟨tree, [], .root⟩
    let options : WalkOptions := { followLinks := false }
    let link := Path.root ++ Path.ofText ['l']
    ∃ walk, start system options link = .ok walk ∧ system.IsLink link ∧
      .entry (link ++ Path.ofText ['f']) true ∈ toList system options walk ∧
      ¬ LeavesLinks system options link walk := by
  intro tree system options link
  have started : start system options link =
      .ok ⟨[], [⟨link, [['d']], 1, ⟨[['f']], none⟩⟩]⟩ := rfl
  have isLink : system.IsLink link := ⟨.root, ['l'], ['d'], by decide, rfl, rfl⟩
  have opened : Opens system options link ⟨link, [['d']], 1, ⟨[['f']], none⟩⟩ [] := .root rfl rfl rfl
  have reports : Reports system options link (.entry (link ++ Path.ofText ['f']) true) :=
    ⟨_, _, opened, .inl ⟨['f'], List.mem_singleton.mpr rfl, List.mem_singleton.mpr rfl⟩⟩
  exact ⟨_, started, isLink, mem_toList_of_reports started reports, fun leaves =>
    leaves.listed _ _ opened isLink⟩

end Walk

end PathSearch
