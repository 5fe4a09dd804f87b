import PathSearch.Number.Binary64
import PathSearch.Text.Basic

namespace PathSearch.Toml

structure Date where
  year : Nat
  month : Nat
  day : Nat
  deriving DecidableEq, Repr

namespace Date

def isLeap (year : Nat) : Bool := year % 4 = 0 && (year % 100 ≠ 0 || year % 400 = 0)

def daysInMonth (year month : Nat) : Nat :=
  if month = 2 then if isLeap year then 29 else 28
  else if month = 4 ∨ month = 6 ∨ month = 9 ∨ month = 11 then 30
  else 31

def isValid (date : Date) : Bool :=
  1 ≤ date.year && 1 ≤ date.month && date.month ≤ 12 &&
    1 ≤ date.day && date.day ≤ daysInMonth date.year date.month

end Date

structure Clock where
  hour : Nat
  minute : Nat
  second : Nat
  microsecond : Nat
  deriving DecidableEq, Repr

namespace Clock

def isValid (clock : Clock) : Bool :=
  clock.hour < 24 && clock.minute < 60 && clock.second < 60 && clock.microsecond < 1000000

end Clock

/-- A value of a document. No document writes `nothing`; it stands in a table made by other means
for a value that is left out. -/
inductive Value where
  | nothing
  | boolean (value : Bool)
  | integer (value : Int)
  | real (value : Binary64)
  | text (content : Text)
  | date (date : Date)
  | time (clock : Clock)
  | moment (date : Date) (clock : Clock) (offsetMinutes : Option Int)
  | array (items : List Value)
  | table (entries : List (Text × Value))
  deriving Repr

/-- Values under distinct names, in the order in which the names first appeared. -/
abbrev Table := List (Text × Value)

namespace Table

def find? (table : Table) (name : Text) : Option Value := table.lookup name

/-- The table with a value under a name. A name that is there keeps its place. -/
def set (name : Text) (value : Value) : Table → Table
  | [] => [(name, value)]
  | (other, old) :: rest =>
      if other = name then (name, value) :: rest else (other, old) :: set name value rest

theorem find?_set (name : Text) (value : Value) (table : Table) :
    (table.set name value).find? name = some value := by
  induction table with
  | nil => simp [set, find?]
  | cons entry rest ih =>
      obtain ⟨other, old⟩ := entry
      by_cases same : other = name
      · simp [set, find?, same]
      · simpa [set, find?, same, List.lookup_cons, beq_eq_false_iff_ne.mpr (Ne.symm same)] using ih

theorem find?_set_of_ne {name other : Text} (value : Value) (table : Table)
    (different : other ≠ name) : (table.set name value).find? other = table.find? other := by
  induction table with
  | nil => simp [set, find?, List.lookup_cons, beq_eq_false_iff_ne.mpr different]
  | cons entry rest ih =>
      obtain ⟨first, old⟩ := entry
      by_cases same : first = name
      · simp [set, find?, same, List.lookup_cons, beq_eq_false_iff_ne.mpr different]
      · by_cases wanted : other = first
        · simp [set, find?, same, wanted]
        · simpa [set, find?, same, List.lookup_cons, beq_eq_false_iff_ne.mpr wanted] using ih

/-- Changes the table that a path of names leads to, which is made empty where it is missing. A path
through an array of tables goes on in the last of them, and there is none through another value. -/
def alter? (change : Table → Option Table) : List Text → Table → Option Table
  | [], table => change table
  | name :: path, table =>
      match table.find? name with
      | none => (alter? change path []).map fun inner => table.set name (.table inner)
      | some (.table inner) =>
          (alter? change path inner).map fun inner => table.set name (.table inner)
      | some (.array items) =>
          match items.getLast? with
          | some (.table inner) => (alter? change path inner).map fun inner =>
              table.set name (.array (items.dropLast ++ [.table inner]))
          | _ => none
      | some _ => none

def insertNew? (name : Text) (value : Value) (table : Table) : Option Table :=
  match table.find? name with
  | none => some (table.set name value)
  | some _ => none

/-- Adds an empty table to the array of tables under a name, which is made where it is missing. -/
def appendElement? (name : Text) (table : Table) : Option Table :=
  match table.find? name with
  | none => some (table.set name (.array [.table []]))
  | some (.array items) => some (table.set name (.array (items ++ [.table []])))
  | some _ => none

end Table

end PathSearch.Toml
