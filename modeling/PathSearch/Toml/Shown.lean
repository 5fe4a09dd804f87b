import PathSearch.Number.Shortest
import PathSearch.Text.Quoted
import PathSearch.Toml.Value

namespace PathSearch.Toml

/-!
Values as messages show them: quoted text, lists in square brackets, tables in braces, and dates and
times as the calls that would make them.
-/

/-- Numbers from a ten-thousandth up to sixteen digits before the point have no exponent. -/
def realLayout : Binary64.Layout := ⟨-4, 15, true, 2⟩

def shownNumber (number : Int) : Text := (ToString.toString number).toList

def shownCall (name : String) (arguments : List Text) : Text :=
  name.toList ++ '(' :: Text.joinWith [',', ' '] arguments ++ [')']

def Date.fields (date : Date) : List Text :=
  [date.year, date.month, date.day].map fun (field : Nat) => shownNumber field

/-- The hour and the minute, and what follows them as far as something is not zero. -/
def Clock.fields (clock : Clock) : List Text :=
  let all := [clock.hour, clock.minute, clock.second, clock.microsecond]
  let shown := if clock.microsecond ≠ 0 then 4 else if clock.second ≠ 0 then 3 else 2
  (all.take shown).map fun (field : Nat) => shownNumber field

/-- A time zone by its distance from universal time; what lies behind it is a day back and so many
seconds ahead. -/
def shownZone (offsetMinutes : Int) : Text :=
  let seconds := fun (minutes : Int) => "seconds=".toList ++ shownNumber (60 * minutes)
  let distance :=
    if 0 < offsetMinutes then [seconds offsetMinutes]
    else ["days=-1".toList, seconds (24 * 60 + offsetMinutes)]
  if offsetMinutes = 0 then "datetime.timezone.utc".toList
  else shownCall "datetime.timezone" [shownCall "datetime.timedelta" distance]

mutual

def Value.shown : Value → Text
  | .nothing => "None".toList
  | .boolean value => if value then "True".toList else "False".toList
  | .integer value => shownNumber value
  | .real value => (realLayout.text value).toList
  | .text content => Text.quoted content
  | .date date => shownCall "datetime.date" date.fields
  | .time clock => shownCall "datetime.time" clock.fields
  | .moment date clock offset =>
      let zone := offset.toList.map fun minutes => "tzinfo=".toList ++ shownZone minutes
      shownCall "datetime.datetime" (date.fields ++ clock.fields ++ zone)
  | .array items => '[' :: Text.joinWith [',', ' '] (shownItems items) ++ [']']
  | .table entries => '\x7b' :: Text.joinWith [',', ' '] (shownEntries entries) ++ ['\x7d']

def shownItems : List Value → List Text
  | [] => []
  | item :: items => item.shown :: shownItems items

def shownEntries : List (Text × Value) → List Text
  | [] => []
  | (name, value) :: entries =>
      (Text.quoted name ++ ':' :: ' ' :: value.shown) :: shownEntries entries

end

mutual

/-- How deep the values that are shown lie in each other, the value itself being the first of them. -/
def Value.nesting : Value → Nat
  | .array items => nestingOfItems items + 1
  | .table entries => nestingOfEntries entries + 1
  | _ => 1

def nestingOfItems : List Value → Nat
  | [] => 0
  | item :: items => max item.nesting (nestingOfItems items)

def nestingOfEntries : List (Text × Value) → Nat
  | [] => 0
  | (_, value) :: entries => max value.nesting (nestingOfEntries entries)

end

/-- The greatest nesting of a value that can be shown. -/
def shownNestingLimit : Nat := 987

end PathSearch.Toml
