import PathSearch.Proofs.Path.Normal
import PathSearch.Proofs.Settings.Loading

/-!
The config file of a directory is the nearest one: the search asks the directory and then each directory above
it, the root being the last, and in each of them the names in their order.
-/

namespace PathSearch

/-- The directories that going up comes through: it stops at the first one that is its own parent. -/
inductive Path.Ascends : Path → List Path → Prop
  | top {path : Path} (still : path.parent = path) : Ascends path [path]
  | up {path : Path} {above : List Path} (onward : path.parent ≠ path) (later : Ascends path.parent above) :
      Ascends path (path :: above)

namespace Path

variable {path : Path}

theorem Ascends.unique {first second : List Path} (ascends : Ascends path first)
    (again : Ascends path second) : first = second := by
  induction ascends generalizing second with
  | top still =>
      cases again with
      | top => rfl
      | up onward => exact absurd still onward
  | up onward later ih =>
      cases again with
      | top still => exact absurd still onward
      | up _ more => rw [ih more]

theorem parent_eq_self_iff : path.parent = path ↔ path.names = [] := by
  constructor
  · intro still
    have names : path.names.dropLast.length = path.names.length := congrArg (fun p => p.names.length) still
    rw [List.length_dropLast] at names
    exact List.length_eq_zero_iff.mp (by omega)
  · intro none
    apply ext
    · rfl
    · simp [parent, none]

theorem Ascends.exists_top {directories : List Path} (ascends : Ascends path directories) :
    ∃ top, directories.getLast? = some top ∧ top.anchor = path.anchor ∧ top.names = [] := by
  induction ascends with
  | @top path still => exact ⟨path, rfl, rfl, parent_eq_self_iff.mp still⟩
  | @up path above onward later ih =>
      obtain ⟨top, last, anchor, names⟩ := ih
      refine ⟨top, ?_, anchor, names⟩
      rw [List.getLast?_cons, last, Option.getD_some]

theorem ancestors_of_names_eq_nil (none : path.names = []) : path.ancestors = [path] := by
  obtain ⟨anchor, names, named⟩ := path
  obtain rfl : names = [] := none
  rfl

theorem ancestors_of_names_ne_nil (some : path.names ≠ []) :
    path.ancestors = path :: path.parent.ancestors := by
  have count : path.parent.names.length + 1 = path.names.length := by
    have long := List.length_pos_iff.mpr some
    simp only [parent, List.length_dropLast]
    omega
  rw [ancestors, ancestors, count, List.range_succ_eq_map, List.map_cons, List.map_map]
  congr 1
  · exact ext rfl (by simp)
  · apply List.map_congr_left
    intro levels _
    apply ext
    · rfl
    · simp only [parent, Function.comp_apply, List.length_dropLast]
      rw [List.dropLast_eq_take, List.take_take]
      congr 1
      omega

/-- Going up ends, at the root. -/
theorem ascends_ancestors (path : Path) : Ascends path path.ancestors := by
  induction count : path.names.length generalizing path with
  | zero =>
      have none := List.length_eq_zero_iff.mp count
      rw [ancestors_of_names_eq_nil none]
      exact .top (parent_eq_self_iff.mpr none)
  | succ levels ih =>
      have some : path.names ≠ [] := fun none => by simp [none] at count
      rw [ancestors_of_names_ne_nil some]
      refine .up (mt parent_eq_self_iff.mp some) (ih path.parent ?_)
      simp [parent, count]

end Path

namespace Settings

variable {system : FileSystem} {start directory file : Path}

/-- What a directory may have for its config: a regular file, all links followed, and in a shared one the
section is found. -/
structure Serves (system : FileSystem) (file : Path) : Prop where
  regular : ∃ location content, system.status file = .ok (location, some (.file content))
  mentioned : file.name = sharedFile → hasSection system file = .ok true

theorem isFile_eq_true_iff :
    system.isFile file = .ok true ↔
      ∃ location content, system.status file = .ok (location, some (.file content)) := by
  unfold FileSystem.isFile
  split
  · rename_i location content found
    simp [found]
  · rename_i found other asked
    refine iff_of_false (by simp) ?_
    rintro ⟨location, content, regular⟩
    exact other location content (Except.ok.inj (asked.symm.trans regular))
  · rename_i failed
    simp [failed]
  · rename_i error failed
    simp only [failed, reduceCtorEq, exists_false, iff_false]
    split <;> simp

theorem serves_iff : isUsable system file = .ok true ↔ Serves system file := by
  rw [isUsable, bind_eq_ok]
  simp only [mapError_eq_ok]
  constructor
  · rintro ⟨regular, asked, used⟩
    cases regular with
    | false => cases used
    | true =>
        refine ⟨isFile_eq_true_iff.mp asked, fun shared => ?_⟩
        rwa [if_pos rfl, if_pos shared] at used
  · rintro ⟨regular, mentioned⟩
    refine ⟨true, isFile_eq_true_iff.mpr regular, ?_⟩
    rw [if_pos rfl]
    by_cases shared : file.name = sharedFile
    · rw [if_pos shared, mentioned shared]
    · rw [if_neg shared]
      rfl

theorem not_serves_of_passed (passed : isUsable system file = .ok false) : ¬ Serves system file := by
  intro serves
  cases (serves_iff.mpr serves).symm.trans passed

/-- The file is the first of its directory that serves. -/
structure ServesFirst (system : FileSystem) (directory file : Path) : Prop where
  serves : Serves system file
  first : ∃ earlier name later, fileNames = earlier ++ name :: later ∧
    file = directory ++ Path.ofText name ∧ ∀ other ∈ earlier, ¬ Serves system (directory ++ Path.ofText other)

/-- No file of the directory serves. -/
def Lacks (system : FileSystem) (directory : Path) : Prop :=
  ∀ name ∈ fileNames, ¬ Serves system (directory ++ Path.ofText name)

/-- The file is that of the nearest directory with one that serves. -/
def IsNearest (system : FileSystem) (directories : List Path) (file : Path) : Prop :=
  ∃ nearer directory farther, directories = nearer ++ directory :: farther ∧
    ServesFirst system directory file ∧ ∀ other ∈ nearer, Lacks system other

section Search

variable {files more : List Path}

theorem firstUsable?_eq_none :
    firstUsable? system files = .ok none ↔ ∀ file ∈ files, isUsable system file = .ok false := by
  induction files with
  | nil => exact iff_of_true rfl (by simp)
  | cons first files ih =>
      rw [firstUsable?_cons, List.forall_mem_cons, ← ih]
      cases isUsable system first with
      | error error => simp
      | ok usable => cases usable <;> simp

theorem firstUsable?_append :
    firstUsable? system (files ++ more) =
      match firstUsable? system files with
      | .ok none => firstUsable? system more
      | answer => answer := by
  induction files with
  | nil => rfl
  | cons first files ih =>
      rw [List.cons_append, firstUsable?_cons, firstUsable?_cons, ih]
      cases isUsable system first with
      | error error => rfl
      | ok usable => cases usable <;> rfl

/-- The files that are asked for in one directory. -/
def filesIn (directory : Path) : List Path := fileNames.map fun name => directory ++ Path.ofText name

theorem lacks_of_firstUsable? (passed : firstUsable? system (filesIn directory) = .ok none) :
    Lacks system directory := by
  intro name member
  exact not_serves_of_passed (firstUsable?_eq_none.mp passed _ (List.mem_map_of_mem member))

theorem servesFirst_of_firstUsable? (found : firstUsable? system (filesIn directory) = .ok (some file)) :
    ServesFirst system directory file := by
  obtain ⟨before, after, shape, passed, usable⟩ := firstUsable?_eq_some.mp found
  refine ⟨serves_iff.mp usable, ?_⟩
  obtain ⟨earlier, rest, names, rfl, behind⟩ := List.map_eq_append_iff.mp shape
  obtain ⟨name, later, rfl, rfl, -⟩ := List.map_eq_cons_iff.mp behind
  exact ⟨earlier, name, later, names, rfl, fun other member =>
    not_serves_of_passed (passed _ (List.mem_map_of_mem member))⟩

/-- One directory after the other, up to the first that has an answer. -/
theorem isNearest_of_firstUsable? {directories : List Path}
    (found : firstUsable? system (directories.flatMap filesIn) = .ok (some file)) :
    IsNearest system directories file := by
  induction directories with
  | nil => cases found
  | cons first directories ih =>
      rw [List.flatMap_cons, firstUsable?_append] at found
      cases here : firstUsable? system (filesIn first) with
      | error error => simp [here] at found
      | ok answer =>
          cases answer with
          | none =>
              rw [here] at found
              obtain ⟨nearer, directory, farther, rfl, serves, passed⟩ := ih found
              exact ⟨first :: nearer, directory, farther, rfl, serves,
                List.forall_mem_cons.mpr ⟨lacks_of_firstUsable? here, passed⟩⟩
          | some chosen =>
              rw [here] at found
              cases found
              exact ⟨[], first, directories, rfl, servesFirst_of_firstUsable? here, by simp⟩

theorem lacks_of_firstUsable?_eq_none {directories : List Path}
    (missing : firstUsable? system (directories.flatMap filesIn) = .ok none) :
    ∀ directory ∈ directories, Lacks system directory := by
  intro directory member
  refine lacks_of_firstUsable? (firstUsable?_eq_none.mpr fun file asked => ?_)
  exact firstUsable?_eq_none.mp missing file (List.mem_flatMap.mpr ⟨directory, member, asked⟩)

end Search

theorem find?_eq_ok_iff {found : Option Path} :
    find? system start = .ok found ↔
      ∃ directory, system.canonical start = .ok directory ∧
        firstUsable? system (candidates directory) = .ok found := by
  rw [find?, bind_eq_ok]
  simp only [mapError_eq_ok]

/-- The file that is found is the nearest one, and where none is found there is none up to the root. Going up
ends, and the search has an answer unless the start has no canonical form or a file that it comes to cannot
be asked. -/
theorem find?_nearest (system : FileSystem) (start : Path) :
    (∀ file, find? system start = .ok (some file) →
      ∃ directory directories, system.canonical start = .ok directory ∧ directory.Ascends directories ∧
        IsNearest system directories file) ∧
    (find? system start = .ok none →
      ∃ directory directories, system.canonical start = .ok directory ∧ directory.Ascends directories ∧
        ∀ above ∈ directories, Lacks system above) ∧
    (∀ path : Path, ∃ directories, path.Ascends directories ∧
      (∀ others, path.Ascends others → others = directories) ∧
        ∃ top, directories.getLast? = some top ∧ top.anchor = path.anchor ∧ top.names = []) ∧
    ((∃ found, find? system start = .ok found) ↔
      ∃ directory, system.canonical start = .ok directory ∧
        ∀ file, Reaches system directory file → ∃ usable, isUsable system file = .ok usable) := by
  refine ⟨?_, ?_, ?_, ?_⟩
  · intro file answered
    obtain ⟨directory, canonical, found⟩ := find?_eq_ok_iff.mp answered
    exact ⟨directory, directory.ancestors, canonical, directory.ascends_ancestors,
      isNearest_of_firstUsable? found⟩
  · intro answered
    obtain ⟨directory, canonical, missing⟩ := find?_eq_ok_iff.mp answered
    exact ⟨directory, directory.ancestors, canonical, directory.ascends_ancestors,
      lacks_of_firstUsable?_eq_none missing⟩
  · intro path
    have ascends := path.ascends_ancestors
    exact ⟨path.ancestors, ascends, fun _ again => again.unique ascends, ascends.exists_top⟩
  · simp only [find?_eq_ok_iff]
    rw [exists_comm]
    apply exists_congr
    intro directory
    rw [exists_and_left, and_congr_right_iff]
    intro _
    rw [exists_firstUsable?_iff]
    constructor
    · rintro asked file ⟨before, after, shape, passed⟩
      exact asked before file after shape passed
    · intro asked before file after shape passed
      exact asked file ⟨before, after, shape, passed⟩

/-- A start behind a link; the directory that it leads to has a directory, a link to nowhere and a shared file
without the section under the three names, the one above it a shared file with the section. And a tree without
files. -/
theorem find?_nearest_behind_link :
    let shared := fun content : String => Node.file content.toUTF8
    let tree := [([['a'], ['b'], ".globpathfinder.toml".toList], Node.dir []),
      ([['a'], ['b'], "globpathfinder.toml".toList], .link ['x']),
      ([['a'], ['b'], sharedFile], shared "[tool.other]\n"),
      ([['a'], sharedFile], shared "[tool.globpathfinder]\nmax-depth = 1\n"),
      (["globpathfinder.toml".toList], shared ""),
      ([['l']], .link ['a', '/', 'b'])].foldl (fun tree (location, node) => tree.add location node) Tree.empty
    let system : FileSystem := ⟨tree, [], .root⟩
    let file : Path := Path.root ++ Path.ofText ['a'] ++ Path.ofText sharedFile
    let bare : FileSystem := ⟨Tree.empty, [], .root⟩
    (find? system (Path.ofText ['l']) = .ok (some file) ∧
      ∃ directory directories, system.canonical (Path.ofText ['l']) = .ok directory ∧
        directory.Ascends directories ∧ IsNearest system directories file) ∧
    (find? bare .root = .ok none ∧
      ∃ directory directories, bare.canonical .root = .ok directory ∧ directory.Ascends directories ∧
        ∀ above ∈ directories, Lacks bare above) := by
  intro shared tree system file bare
  have answered : find? system (Path.ofText ['l']) = .ok (some file) :=
    eq_ok_of_toOption (by decide +kernel)
  have missing : find? bare .root = .ok none := eq_ok_of_toOption (by decide +kernel)
  exact ⟨⟨answered, (find?_nearest system _).1 file answered⟩,
    ⟨missing, (find?_nearest bare .root).2.1 missing⟩⟩

end Settings

end PathSearch
