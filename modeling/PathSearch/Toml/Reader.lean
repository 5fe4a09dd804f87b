import PathSearch.Toml.Quoted
import PathSearch.Toml.Scalar

namespace PathSearch.Toml

/-- A table that is being filled. Nothing can be added beneath a `fixed` path: it leads to an array
or a table that was written out as a value. -/
structure Draft where
  root : Table
  fixed : List (List Text)
  deriving Repr

namespace Draft

def empty : Draft := ⟨[], []⟩

def isFixed (draft : Draft) (path : List Text) : Bool :=
  draft.fixed.any fun fixed => fixed.isPrefixOf path

/-- Adds a value under a new key, whose path starts from the table that `header` leads to. -/
def insert? (header : List Text) (key : Key) (value : Value) (draft : Draft) : Option Draft :=
  let parents := header ++ key.parents
  if draft.isFixed parents then none
  else
    (draft.root.alter? (Table.insertNew? key.name value) parents).map fun root =>
      match value with
      | .array _ | .table _ => ⟨root, (parents ++ [key.name]) :: draft.fixed⟩
      | _ => ⟨root, draft.fixed⟩

end Draft

def readFiller (text : Text) : Except Fault { rest : Text // rest.length ≤ text.length } :=
  match skipped : skipFiller? false text with
  | none => .error .malformed
  | some rest => .ok ⟨rest, skipFiller?_le skipped⟩

/-- A key with the equals sign and the blanks after it. -/
def readBinding (text : Text) : Except Fault (Read text Key) := do
  let key ← readKey text
  match shape : key.rest with
  | '=' :: rest =>
      return ⟨key.value, skipSpace rest, by
        have bound := skipSpace_le rest
        have shorter := key.shorter
        rw [shape, List.length_cons] at shorter
        omega⟩
  | _ => throw .malformed

/-- How deep values may be nested. An array takes `arrayDepth` of it from its items, and a table that
stands in one line takes `tableDepth` from its entries. -/
def depthLimit : Nat := 986

def arrayDepth : Nat := 2

def tableDepth : Nat := 3

/-- The depth that is left inside a value. -/
def deeper (cost depth : Nat) : Except Fault Nat :=
  if cost ≤ depth then .ok (depth - cost) else .error .tooNested

mutual

def readValue (depth : Nat) (text : Text) : Except Fault (Read text Value) :=
  match text with
  | '[' :: rest => do
      let depth ← deeper arrayDepth depth
      let ⟨start, bound⟩ ← readFiller rest
      let items ← readItems depth start
      return (items.map .array).within (Nat.le_succ_of_le bound)
  | '{' :: rest => do
      let depth ← deeper tableDepth depth
      have bound := skipSpace_le rest
      match shape : skipSpace rest with
      | '}' :: beyond =>
          return ⟨.table [], beyond, by
            rw [shape, List.length_cons] at bound
            exact Nat.le_succ_of_le bound⟩
      | _ =>
          let entries ← readEntries depth .empty (skipSpace rest)
          return (entries.map .table).within (Nat.le_succ_of_le bound)
  | text =>
      match Scan.read? quoted text with
      | some content => .ok (content.map .text)
      | none => readScalar text
termination_by 2 * text.length

def readItems (depth : Nat) (text : Text) : Except Fault (Read text (List Value)) :=
  match text with
  | ']' :: rest => .ok ⟨[], rest, by simp⟩
  | text => do
      let item ← readValue depth text
      have shorter := item.shorter
      let ⟨beyond, bound⟩ ← readFiller item.rest
      match shape : beyond with
      | ']' :: rest =>
          return ⟨[item.value], rest, by
            rw [shape, List.length_cons] at bound
            omega⟩
      | ',' :: rest =>
          let ⟨next, nextBound⟩ ← readFiller rest
          have closer : next.length < text.length := by
            rw [shape, List.length_cons] at bound
            omega
          let items ← readItems depth next
          return (items.map (item.value :: ·)).within (Nat.le_of_lt closer)
      | _ => throw .malformed
termination_by 2 * text.length + 1

/-- The entries of a table that stands in one line, up to its end. -/
def readEntries (depth : Nat) (draft : Draft) (text : Text) : Except Fault (Read text Table) := do
  let key ← readBinding text
  have shorter := key.shorter
  let value ← readValue depth key.rest
  have later := value.shorter
  have bound := skipSpace_le value.rest
  match draft.insert? [] key.value value.value with
  | none => throw .malformed
  | some draft =>
      match shape : skipSpace value.rest with
      | '}' :: rest =>
          return ⟨draft.root, rest, by
            rw [shape, List.length_cons] at bound
            omega⟩
      | ',' :: rest =>
          have closer : (skipSpace rest).length < text.length := by
            have space := skipSpace_le rest
            rw [shape, List.length_cons] at bound
            omega
          let entries ← readEntries depth draft (skipSpace rest)
          return entries.within (Nat.le_of_lt closer)
      | _ => throw .malformed
termination_by 2 * text.length + 1

end

end PathSearch.Toml
