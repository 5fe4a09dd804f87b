import PathSearch.Text.Basic

namespace PathSearch

/-- What may stand between two slashes of a path: some text other than the single dot. -/
def IsName (text : Text) : Prop := text ≠ [] ∧ '/' ∉ text ∧ text ≠ ['.']

instance (text : Text) : Decidable (IsName text) := inferInstanceAs (Decidable (_ ∧ _ ∧ _))

/-- Where a path starts. Two leading slashes are a root of their own; any other number of leading
slashes is the ordinary root. -/
inductive Anchor where
  | here
  | root
  | doubleRoot
  deriving DecidableEq, Repr

namespace Anchor

def text : Anchor → Text
  | .here => []
  | .root => ['/']
  | .doubleRoot => ['/', '/']

def ofText : Text → Anchor
  | '/' :: '/' :: '/' :: _ => .root
  | '/' :: '/' :: _ => .doubleRoot
  | '/' :: _ => .root
  | _ => .here

end Anchor

/-- A path is an anchor and the names below it. Repeated slashes, single dots and a trailing slash
leave no trace, while `..` is a name like any other. -/
structure Path where
  anchor : Anchor
  names : List Text
  named : ∀ name ∈ names, IsName name
  deriving DecidableEq

namespace Path

@[ext]
theorem ext {first second : Path} (anchors : first.anchor = second.anchor)
    (names : first.names = second.names) : first = second := by
  cases first
  cases second
  simp_all

/-- The path with no names and no root: the directory one is in. -/
def here : Path := ⟨.here, [], by simp⟩

def root : Path := ⟨.root, [], by simp⟩

instance : Inhabited Path := ⟨here⟩

def IsAbsolute (path : Path) : Prop := path.anchor ≠ .here

instance (path : Path) : Decidable path.IsAbsolute := inferInstanceAs (Decidable (_ ≠ _))

/-- The names among the slash-separated pieces of a text. -/
def namesOf (text : Text) : List Text := (text.split '/').filter fun piece => IsName piece

theorem isName_of_mem_namesOf {text name : Text} (member : name ∈ namesOf text) : IsName name := by
  simpa using (List.mem_filter.mp member).2

def ofText (text : Text) : Path :=
  ⟨.ofText text, namesOf text, fun _ member => isName_of_mem_namesOf member⟩

def ofString (source : String) : Path := ofText (.ofString source)

/-- The written form; the path that has neither root nor names is written as a single dot. -/
def text (path : Path) : Text :=
  match path.anchor, path.names with
  | .here, [] => ['.']
  | anchor, names => anchor.text ++ Text.join '/' names

def toString (path : Path) : String := path.text.toString

/-- The last name, or nothing for a path without names. -/
def name (path : Path) : Text := path.names.getLast?.getD []

def parent (path : Path) : Path :=
  ⟨path.anchor, path.names.dropLast, fun name member =>
    path.named name (List.dropLast_subset _ member)⟩

/-- The second path read from the first one; a path with a root of its own stays as it is. -/
def append (base path : Path) : Path :=
  if path.IsAbsolute then path
  else ⟨base.anchor, base.names ++ path.names, fun name member =>
    (List.mem_append.mp member).elim (base.named name) (path.named name)⟩

instance : Append Path := ⟨append⟩

/-- The path of something called `name` inside the directory `path`. -/
def child (path : Path) (name : Text) (named : IsName name) : Path :=
  ⟨path.anchor, path.names ++ [name], fun other member => by
    rcases List.mem_append.mp member with member | member
    · exact path.named other member
    · cases List.mem_singleton.mp member
      exact named⟩

def extend (path : Path) (names : List Text) : Path :=
  names.foldl (fun path name => path ++ ofText name) path

/-- The path and all paths above it, itself first. -/
def ancestors (path : Path) : List Path :=
  (List.range (path.names.length + 1)).map fun levels =>
    ⟨path.anchor, path.names.take (path.names.length - levels), fun name member =>
      path.named name (List.mem_of_mem_take member)⟩

/-- What remains of the path below `base`, when it is `base` itself or lies below it. -/
def relativeTo? (path base : Path) : Option Path :=
  if path.anchor = base.anchor ∧ base.names <+: path.names then
    some ⟨.here, path.names.drop base.names.length, fun name member =>
      path.named name (List.mem_of_mem_drop member)⟩
  else none

/-- The root, if any, followed by the names: what paths are ordered by. -/
def parts (path : Path) : List Text :=
  match path.anchor with
  | .here => path.names
  | anchor => anchor.text :: path.names

/-- Paths are ordered by their parts, not by their written form. -/
def le (first second : Path) : Bool := lexLe Text.le first.parts second.parts

def sort (paths : List Path) : List Path := paths.mergeSort le

end Path

end PathSearch
