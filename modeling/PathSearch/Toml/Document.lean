import PathSearch.Toml.Reader

namespace PathSearch.Toml

/-- One line of a document: a table or an element of an array of tables is opened, or a value is
written under a key of the open one. -/
inductive Statement where
  | table (path : List Text)
  | element (path : Key)
  | entry (key : Key) (value : Value)
  deriving Repr

def readHeader (text : Text) : Except Fault (Read text Key) := do
  let key ← readKey (skipSpace text)
  return key.within (skipSpace_le text)

def readClosing (closing : String) (text : Text) : Except Fault (Read text Unit) :=
  match (Scan.word closing).read? text with
  | some read => .ok read
  | none => .error .malformed

/-- A statement, which starts with the first character of the text. -/
def readStatement (text : Text) : Except Fault (Read text Statement) :=
  match text with
  | '[' :: '[' :: rest => do
      let key ← readHeader rest
      let closing ← readClosing "]]" key.rest
      return ((key.followedBy closing).map fun _ => .element key.value).within (by simp; omega)
  | '[' :: rest => do
      let key ← readHeader rest
      let closing ← readClosing "]" key.rest
      return ((key.followedBy closing).map fun _ => .table key.value.path).within (by simp)
  | text => do
      let key ← readBinding text
      let value ← readValue depthLimit key.rest
      return (key.followedBy value).map (.entry key.value)

/-- What a document has said so far. `open` leads to the table that entries go to. A `declared` table
cannot be opened by a header nor extended by a dotted key. The tables that dotted keys have gone
through are `dotted`, and they count as declared once another header is read. -/
structure Document where
  draft : Draft
  header : List Text
  declared : List (List Text)
  dotted : List (List Text)
  deriving Repr

namespace Document

def empty : Document := ⟨.empty, [], [], []⟩

/-- Opens a table, which must not have been opened before. -/
def openTable? (path : List Text) (document : Document) : Option Document :=
  let declared := document.dotted ++ document.declared
  if declared.contains path || document.draft.isFixed path then none
  else
    (document.draft.root.alter? some path).map fun root =>
      ⟨{ document.draft with root }, path, path :: declared, []⟩

/-- Opens a new element of an array of tables. What was said of paths through the element before it
does not hold of the new one. -/
def openElement? (key : Key) (document : Document) : Option Document :=
  let path := key.path
  let declared := document.dotted ++ document.declared
  let others := fun (paths : List (List Text)) => paths.filter fun other => !path.isPrefixOf other
  if document.draft.isFixed path then none
  else
    (document.draft.root.alter? (Table.appendElement? key.name) key.parents).map fun root =>
      ⟨⟨root, others document.draft.fixed⟩, path, path :: others declared, []⟩

/-- The tables that a dotted key goes through below the open one. -/
def through (header : List Text) : List Text → List (List Text)
  | [] => []
  | name :: names => (header ++ [name]) :: through (header ++ [name]) names

def write? (key : Key) (value : Value) (document : Document) : Option Document :=
  let tables := through document.header key.parents
  if tables.any document.declared.contains then none
  else
    (document.draft.insert? document.header key value).map fun draft =>
      { document with draft, dotted := tables ++ document.dotted }

def add? : Statement → Document → Option Document
  | .table path => openTable? path
  | .element key => openElement? key
  | .entry key value => write? key value

def readLines (document : Document) (text : Text) : Except Fault Document :=
  match ended : endLine? false text with
  | some rest =>
      if finished : text = [] then .ok document
      else
        have shorter := (endLine?_shorter ended).resolve_left finished
        readLines document rest
  | none => do
      let statement ← readStatement (skipSpace text)
      match document.add? statement.value with
      | none => throw .malformed
      | some document =>
          match lineEnded : endLine? false statement.rest with
          | none => throw .malformed
          | some rest =>
              have shorter : rest.length < text.length := by
                have bound := skipSpace_le text
                have statementShorter := statement.shorter
                rcases endLine?_shorter lineEnded with finished | shorter
                · rw [finished] at lineEnded statementShorter
                  cases lineEnded
                  simp only [List.length_nil] at statementShorter ⊢
                  omega
                · omega
              readLines document rest
termination_by text.length

def read (text : Text) : Except Fault Table :=
  (readLines .empty text).map fun document => document.draft.root

end Document

end PathSearch.Toml
