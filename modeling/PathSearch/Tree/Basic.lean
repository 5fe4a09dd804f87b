import PathSearch.Path.Normal
import PathSearch.Tree.Error

namespace PathSearch

/-- Where a node of the tree lies: the names that lead to it from the root, none of them a link.
Every node has one location, so the location is also its identity. -/
abbrev Location := List Text

/-- Of two selections from the same locations, the one that misses a location of the other and has no
location of its own is shorter. -/
theorem Location.length_filter_lt {item : Location} {items : List Location} {wide narrow : Location → Bool}
    (within : ∀ other ∈ items, narrow other = true → wide other = true) (member : item ∈ items)
    (kept : wide item = true) (dropped : narrow item = false) :
    (items.filter narrow).length < (items.filter wide).length := by
  induction items with
  | nil => simp at member
  | cons first rest ih =>
      have restWithin : ∀ other ∈ rest, narrow other = true → wide other = true :=
        fun other inside => within other (by simp [inside])
      have restBound : (rest.filter narrow).length ≤ (rest.filter wide).length := by
        clear ih member
        induction rest with
        | nil => simp
        | cons second others ih =>
            have bound := ih (fun other inside => within other (by grind))
              (fun other inside => restWithin other (by simp [inside]))
            have here := restWithin second (by simp)
            by_cases narrowed : narrow second = true
            · simp [narrowed, here narrowed, bound]
            · by_cases widened : wide second = true
              · simp [narrowed, widened]
                omega
              · simp [narrowed, widened, bound]
      rcases List.mem_cons.mp member with rfl | member
      · simp [kept, dropped]
        omega
      · have shorter := ih restWithin member
        have here := within first (by simp)
        by_cases narrowed : narrow first = true
        · simp [narrowed, here narrowed, shorter]
        · by_cases widened : wide first = true
          · simp [narrowed, widened]
            omega
          · simp [narrowed, widened, shorter]

/-- What lies at a location. A directory holds its entries in order of creation. -/
inductive Node where
  | dir (entries : List (Text × Node))
  | file (content : ByteArray)
  | link (target : Text)
  | other

/-- A name that a directory can hold. -/
def IsEntryName (name : Text) : Prop := IsName name ∧ name ≠ Path.up ∧ Char.ofNat 0 ∉ name

instance (name : Text) : Decidable (IsEntryName name) := inferInstanceAs (Decidable (_ ∧ _ ∧ _))

abbrev Entries := List (Text × Node)

namespace Entries

def names (entries : Entries) : List Text := entries.map Prod.fst

def find? (name : Text) : Entries → Option Node
  | [] => none
  | (other, node) :: rest => if other = name then some node else find? name rest

/-- The entries with a node under a name. A name that is there keeps its place. -/
def put (name : Text) (node : Node) : Entries → Entries
  | [] => [(name, node)]
  | (other, old) :: rest =>
      if other = name then (name, node) :: rest else (other, old) :: put name node rest

theorem names_put (name : Text) (node : Node) (entries : Entries) :
    names (put name node entries) =
      if name ∈ names entries then names entries else names entries ++ [name] := by
  induction entries with
  | nil => simp [put, names]
  | cons entry rest ih =>
      obtain ⟨other, old⟩ := entry
      simp only [names] at ih
      by_cases same : other = name
      · simp [put, names, same]
      · by_cases inside : name ∈ rest.map Prod.fst <;>
          simp [put, names, same, Ne.symm same, ih, inside]

theorem nodup_names_put {name : Text} {node : Node} {entries : Entries}
    (distinct : (names entries).Nodup) : (names (put name node entries)).Nodup := by
  rw [names_put]
  split
  · exact distinct
  · rename_i absent
    rw [List.nodup_append]
    refine ⟨distinct, by simp, ?_⟩
    intro held member other single same
    exact absent (List.mem_singleton.mp single ▸ same ▸ member)

end Entries

namespace Node

/-- What a directory holds; nothing lies in any other node. -/
def entries : Node → Entries
  | .dir entries => entries
  | _ => []

/-- The node at a location, as seen from a node. -/
def at? : Location → Node → Option Node
  | [], node => some node
  | name :: rest, node => (Entries.find? name node.entries).bind (at? rest)

/-- A node inside new directories, one for each name. -/
def enclosed (new : Node) : Location → Node
  | [] => new
  | name :: rest => .dir [(name, enclosed new rest)]

/-- Creates a node at a location, and before it the directories that are missing on the way. Where
something lies already it stays, and nothing can be created below what is no directory. -/
def insert (new : Node) : Location → Node → Node
  | name :: rest, .dir entries =>
      match Entries.find? name entries with
      | none => .dir (Entries.put name (enclosed new rest) entries)
      | some inner => .dir (Entries.put name (insert new rest inner) entries)
  | _, node => node

mutual

/-- Every directory has distinct names, which a directory can hold. -/
def Proper : Node → Prop
  | .dir entries => (Entries.names entries).Nodup ∧ ProperEntries entries
  | .file _ => True
  | .link _ => True
  | .other => True

def ProperEntries : List (Text × Node) → Prop
  | [] => True
  | (name, node) :: rest => IsEntryName name ∧ node.Proper ∧ ProperEntries rest

end

theorem ProperEntries.find? {entries : Entries} {name : Text} {node : Node}
    (proper : ProperEntries entries) (found : Entries.find? name entries = some node) :
    IsEntryName name ∧ node.Proper := by
  induction entries with
  | nil => simp [Entries.find?] at found
  | cons entry rest ih =>
      obtain ⟨other, held⟩ := entry
      simp only [ProperEntries] at proper
      by_cases same : other = name
      · simp only [Entries.find?, same, if_true, Option.some.injEq] at found
        exact ⟨same ▸ proper.1, found ▸ proper.2.1⟩
      · simp only [Entries.find?, if_neg same] at found
        exact ih proper.2.2 found

theorem ProperEntries.put {entries : Entries} {name : Text} {node : Node}
    (proper : ProperEntries entries) (named : IsEntryName name) (inner : node.Proper) :
    ProperEntries (Entries.put name node entries) := by
  induction entries with
  | nil => exact ⟨named, inner, trivial⟩
  | cons entry rest ih =>
      obtain ⟨other, held⟩ := entry
      simp only [ProperEntries] at proper
      by_cases same : other = name
      · simp only [Entries.put, same, if_true]
        exact ⟨named, inner, proper.2.2⟩
      · simp only [Entries.put, if_neg same]
        exact ⟨proper.1, proper.2.1, ih proper.2.2⟩

theorem Proper.enclosed {new : Node} {location : Location} (proper : new.Proper)
    (named : ∀ name ∈ location, IsEntryName name) : (new.enclosed location).Proper := by
  induction location with
  | nil => exact proper
  | cons name rest ih =>
      exact ⟨by simp [Entries.names], named name (by simp),
        ih fun other member => named other (by simp [member]), trivial⟩

theorem Proper.insert {new node : Node} {location : Location} (proper : new.Proper)
    (around : node.Proper) (named : ∀ name ∈ location, IsEntryName name) :
    (insert new location node).Proper := by
  induction location generalizing node with
  | nil => cases node <;> exact around
  | cons name rest ih =>
      have later : ∀ other ∈ rest, IsEntryName other := fun other member =>
        named other (by simp [member])
      cases node with
      | dir entries =>
          obtain ⟨distinct, held⟩ := around
          simp only [Node.insert]
          split
          · exact ⟨Entries.nodup_names_put distinct,
              held.put (named name (by simp)) (proper.enclosed later)⟩
          · rename_i inner found
            exact ⟨Entries.nodup_names_put distinct,
              held.put (named name (by simp)) (ih (held.find? found).2 later)⟩
      | file content => exact around
      | link target => exact around
      | other => exact around

theorem Proper.entries {node : Node} (proper : node.Proper) : (dir node.entries).Proper := by
  cases node with
  | dir entries => exact proper
  | file content => exact ⟨by simp [Node.entries, Entries.names], trivial⟩
  | link target => exact ⟨by simp [Node.entries, Entries.names], trivial⟩
  | other => exact ⟨by simp [Node.entries, Entries.names], trivial⟩

mutual

def size : Node → Nat
  | .dir entries => sizeOfEntries entries
  | .file _ => 0
  | .link _ => 0
  | .other => 0

def sizeOfEntries : List (Text × Node) → Nat
  | [] => 0
  | (_, node) :: rest => 1 + node.size + sizeOfEntries rest

end

theorem size_eq (node : Node) : node.size = sizeOfEntries node.entries := by
  cases node <;> simp [size, entries, sizeOfEntries]

theorem length_entries_le (entries : Entries) : entries.length ≤ sizeOfEntries entries := by
  induction entries with
  | nil => simp
  | cons entry rest ih =>
      simp only [sizeOfEntries, List.length_cons]
      omega

theorem size_lt_of_find? {entries : Entries} {name : Text} {node : Node}
    (found : Entries.find? name entries = some node) : node.size < sizeOfEntries entries := by
  induction entries with
  | nil => simp [Entries.find?] at found
  | cons entry rest ih =>
      obtain ⟨other, held⟩ := entry
      simp only [sizeOfEntries]
      by_cases same : other = name
      · simp only [Entries.find?, same, if_true, Option.some.injEq] at found
        rw [found]
        omega
      · simp only [Entries.find?, if_neg same] at found
        have later := ih found
        omega

/-- What lies below a location lies below the node that the location is seen from. -/
theorem size_at?_le {node inner : Node} {location : Location}
    (found : node.at? location = some inner) : location.length + inner.size ≤ node.size := by
  induction location generalizing node with
  | nil =>
      simp only [at?, Option.some.injEq] at found
      simp [found]
  | cons name rest ih =>
      obtain ⟨next, held, below⟩ := Option.bind_eq_some_iff.mp found
      have first := size_lt_of_find? held
      have later := ih below
      rw [size_eq node, List.length_cons]
      omega

mutual

/-- The locations of all directories, as seen from a node. -/
def directories : Node → List Location
  | .dir entries => [] :: directoriesOfEntries entries
  | .file _ => []
  | .link _ => []
  | .other => []

def directoriesOfEntries : List (Text × Node) → List Location
  | [] => []
  | (name, node) :: rest =>
      node.directories.map (fun location => name :: location) ++ directoriesOfEntries rest

end

theorem mem_directoriesOfEntries {entries : Entries} {name : Text} {node : Node}
    {location : Location} (found : Entries.find? name entries = some node)
    (member : location ∈ node.directories) : name :: location ∈ directoriesOfEntries entries := by
  induction entries with
  | nil => simp [Entries.find?] at found
  | cons entry rest ih =>
      obtain ⟨other, held⟩ := entry
      simp only [directoriesOfEntries, List.mem_append, List.mem_map]
      by_cases same : other = name
      · simp only [Entries.find?, same, if_true, Option.some.injEq] at found
        exact .inl ⟨location, found ▸ member, by rw [same]⟩
      · simp only [Entries.find?, if_neg same] at found
        exact .inr (ih found)

theorem mem_directories {node : Node} {location : Location} {entries : Entries}
    (found : node.at? location = some (.dir entries)) : location ∈ node.directories := by
  induction location generalizing node with
  | nil =>
      simp only [at?, Option.some.injEq] at found
      simp [found, directories]
  | cons name rest ih =>
      obtain ⟨next, held, below⟩ := Option.bind_eq_some_iff.mp found
      cases node with
      | dir inside =>
          exact List.mem_cons_of_mem _ (mem_directoriesOfEntries held (ih below))
      | file content => simp [Node.entries, Entries.find?] at held
      | link target => simp [Node.entries, Entries.find?] at held
      | other => simp [Node.entries, Entries.find?] at held

end Node

/-- A file tree: what the root holds. -/
structure Tree where
  entries : List (Text × Node)
  proper : (Node.dir entries).Proper

namespace Tree

def empty : Tree := ⟨[], by simp [Entries.names], trivial⟩

instance : Inhabited Tree := ⟨empty⟩

def root (tree : Tree) : Node := .dir tree.entries

def node? (tree : Tree) (location : Location) : Option Node := tree.root.at? location

/-- The names in a directory, in order of creation. -/
def children (tree : Tree) (directory : Location) : List Text :=
  match tree.node? directory with
  | some node => Entries.names node.entries
  | none => []

/-- Creates a node and before it the directories that are missing above it. A directory is created
empty, and every name has to be one that a directory can hold. -/
def add (tree : Tree) (location : Location) (node : Node) : Tree :=
  if fresh : node.entries = [] ∧ ∀ name ∈ location, IsEntryName name then
    ⟨(Node.insert node location tree.root).entries, by
      have proper : node.Proper := by
        cases node with
        | dir entries =>
            have vacant : entries = [] := fresh.1
            subst vacant
            exact ⟨by simp [Entries.names], trivial⟩
        | file content => trivial
        | link target => trivial
        | other => trivial
      exact (Node.Proper.insert proper tree.proper fresh.2).entries⟩
  else tree

def size (tree : Tree) : Nat := tree.root.size

theorem length_le_size {tree : Tree} {location : Location} {node : Node}
    (found : tree.node? location = some node) : location.length ≤ tree.size := by
  have bound := Node.size_at?_le found
  unfold size
  omega

theorem children_length_le (tree : Tree) (directory : Location) :
    (tree.children directory).length ≤ tree.size := by
  unfold children
  split
  · rename_i node found
    have bound := Node.size_at?_le found
    have width := Node.length_entries_le node.entries
    rw [← Node.size_eq] at width
    simp only [Entries.names, List.length_map, size]
    omega
  · simp

def isDir (tree : Tree) (location : Location) : Bool :=
  match tree.node? location with
  | some (.dir _) => true
  | _ => false

def directories (tree : Tree) : List Location := tree.root.directories

theorem mem_directories {tree : Tree} {location : Location}
    (found : tree.isDir location = true) : location ∈ tree.directories := by
  unfold isDir at found
  split at found
  · rename_i held
    exact Node.mem_directories held
  · simp at found

end Tree

end PathSearch
