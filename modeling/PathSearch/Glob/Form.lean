import PathSearch.Glob.Globstar
import PathSearch.Glob.Marks
import PathSearch.Text.Blank

namespace PathSearch.Glob

/-- What may follow the part of a path that the pieces of a glob cover. A newline that ends the path
does not count as part of it. -/
inductive Ending where
  | anything
  | finish
  | slashFinish
  deriving DecidableEq, Repr

def isOver (rest : Text) : Bool := rest == [] || rest == ['\n']

namespace Ending

def accepts : Ending → Text → Bool
  | .anything, _ => true
  | .finish, rest => isOver rest
  | .slashFinish, rest =>
      isOver rest ||
        match rest with
        | [] => false
        | character :: rest => character == '/' && isOver rest

end Ending

/-- A compiled glob without braces and without stars in pairs inside a segment. `visible` asks for
any character but newline and `nested` for a slash, anywhere in the path; the other form covers the
path from its start. -/
inductive Form where
  | visible
  | nested
  | covering (pieces : List Piece) (ending : Ending)
  deriving DecidableEq, Repr

namespace Form

def accepts : Form → Text → Bool
  | .visible, text => text.any (· != '\n')
  | .nested, text => text.any (· == '/')
  | .covering pieces ending, text => Piece.acceptsRow ending.accepts pieces text

theorem accepts_covering (pieces : List Piece) (ending : Ending) (text : Text) :
    (covering pieces ending).accepts text = Piece.throughRow ending.accepts pieces text :=
  Piece.acceptsRow_eq_throughRow ending.accepts pieces text

end Form

def star : Text := ['*']

def wholeName : List Piece := [.one .inName, .many .inName]

/-- The pieces of a segment; none when a class has a range that runs backwards. An opening bracket
that is not closed within the segment stands for itself. -/
def segmentPieces? : Text → Option (List Piece)
  | [] => some []
  | character :: rest =>
      if character = '*' then (segmentPieces? rest).map fun pieces => .many .inName :: pieces
      else if character = '?' then (segmentPieces? rest).map fun pieces => .one .inName :: pieces
      else if character = '[' then
        match found : enclosed? rest with
        | none => (segmentPieces? rest).map fun pieces => .one (.only '[') :: pieces
        | some (inner, beyond) =>
            have _shorter := enclosed?_length found
            match CharClass.read? inner, segmentPieces? beyond with
            | some charClass, some pieces => some (.one (.listed charClass) :: pieces)
            | _, _ => none
      else (segmentPieces? rest).map fun pieces => .one (.only character) :: pieces
termination_by text => text.length
decreasing_by all_goals grind

def namePieces? (segment : Text) : Option (List Piece) :=
  if segment = star then some wholeName else segmentPieces? segment

/-- A slash in front of a segment, unless something before it brings its own. -/
def leadIn (slash : Bool) : List Piece := if slash then [.one (.only '/')] else []

/-- The form of segments in a row; `slash` tells whether one has to come before the first. A final
globstar asks for a slash, so for something below what the segments before it cover. -/
def coveringFrom? (slash : Bool) : List Text → Option Form
  | [] => some (.covering [] .finish)
  | [last] =>
      if last = globstar then some (.covering (leadIn true) .anything)
      else if last = star then some (.covering (leadIn slash ++ wholeName) .slashFinish)
      else (segmentPieces? last).map fun pieces => .covering (leadIn slash ++ pieces) .finish
  | segment :: next :: rest =>
      let pieces? :=
        if segment = globstar then some [.between]
        else (namePieces? segment).map fun pieces => leadIn slash ++ pieces
      match pieces?, coveringFrom? true (next :: rest) with
      | some pieces, some (.covering others ending) => some (.covering (pieces ++ others) ending)
      | _, _ => none

def covering? (segments : List Text) : Option Form :=
  match segments with
  | first :: next :: rest =>
      if first = globstar then
        match coveringFrom? false (next :: rest) with
        | some (.covering pieces ending) => some (.covering (.above :: pieces) ending)
        | _ => none
      else coveringFrom? false segments
  | _ => coveringFrom? false segments

def mergeGlobstars : List Text → List Text
  | first :: second :: rest =>
      if first = globstar ∧ second = globstar then mergeGlobstars (second :: rest)
      else first :: mergeGlobstars (second :: rest)
  | segments => segments

/-- A glob as a line with one leading slash more than it has segments, without blanks at its end. -/
def anchoredLine (glob : Text) : Text :=
  Text.stripRight (if ['/'].isPrefixOf glob then glob else '/' :: glob)

/-- The segments of a line, and whether it names a directory by ending in a slash. The bare slash
names no directory but everything. -/
def lineSegments (line : Text) : List Text × Bool :=
  let segments := (line.split '/').drop 1
  if segments.getLast? = some [] then (segments.dropLast ++ [globstar], line ≠ ['/'])
  else (segments, false)

/-- The form of a glob without braces and without stars in pairs inside a segment; none when a class
has a range that runs backwards. -/
def formOf? (glob : Text) : Option Form :=
  let (segments, isDirectory) := lineSegments (anchoredLine glob)
  let merged := mergeGlobstars segments
  if merged = [globstar] then some (if isDirectory then .nested else .visible)
  else if merged = [globstar, star] then some .visible
  else if merged = [globstar, star, globstar] then some .nested
  else covering? merged

end PathSearch.Glob
