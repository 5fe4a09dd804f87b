import PathSearch.Tree.System

namespace PathSearch.FileSystem

/-!
The canonical form of a path: absolute, without `..` and without links. What does not exist is kept
as it is written. Where links lead in a circle, the text that was left to read is put behind the link
at which the circle closed, and a text that starts with a slash then starts over from the root.
-/

variable (system : FileSystem)

/-- The target of the link with a name in a directory. -/
def linkIn? (directory : Path) (name : Text) : Option Text :=
  match system.resolve directory with
  | .error _ => none
  | .ok location =>
      match system.tree.node? (location ++ [name]) with
      | some (.link target) => some target
      | _ => none

/-- The links that were met, latest first: what each of them leads to, or nothing while its target is
being read. -/
abbrev Trail := List (Path × Option Path)

namespace Trail

/-- What was last found out about a link. -/
def of? (trail : Trail) (link : Path) : Option (Option Path) :=
  (trail.find? fun met => met.1 = link).map Prod.snd

end Trail

/-- How far reading came. It is not complete where links lead in a circle. -/
structure Reached where
  path : Path
  complete : Bool
  trail : Trail

/-- A path with the pieces of a text behind it, or what these pieces name on their own when they start
at a root. -/
def behind (path : Path) (pieces : List Text) : Path := path ++ Path.ofText (Text.join '/' pieces)

/-- Why a path has no canonical form: there is a NUL in it, its links lead in a circle, or they are nested too
deeply. -/
inductive CanonicalError where
  | embeddedNul
  | linkCircle (path : Path)
  | nested
  deriving DecidableEq

/-- Goes on from a path without links through the pieces of a text. `enter` reads the target of a link
in a directory. -/
def follow (enter : Trail → Path → Text → Except CanonicalError Reached) :
    Trail → Path → List Text → Except CanonicalError Reached
  | trail, path, [] => .ok ⟨path, true, trail⟩
  | trail, path, piece :: rest =>
      if piece = Path.up then follow enter trail (Path.collapse (path ++ Path.ofText piece)) rest
      else if Char.ofNat 0 ∈ piece then .error .embeddedNul
      else
        let next := path ++ Path.ofText piece
        match system.linkIn? path piece with
        | none => follow enter trail next rest
        | some target =>
            match trail.of? next with
            | some (some known) => follow enter trail known rest
            | some none => .ok ⟨behind next rest, false, trail⟩
            | none =>
                match enter ((next, none) :: trail) path target with
                | .error error => .error error
                | .ok reached =>
                    if reached.complete then
                      follow enter ((next, some reached.path) :: reached.trail) reached.path rest
                    else .ok { reached with path := behind reached.path rest }

/-- Where the target of a link starts from: the root, or the directory that the link is in. -/
def targetBase (directory : Path) (target : Text) : Path :=
  if Anchor.ofText target = .here then directory else Path.root

/-- Goes on through pieces, with so many links nested in each other at most. -/
def followNested : Nat → Trail → Path → List Text → Except CanonicalError Reached
  | 0 => system.follow fun _ _ _ => .error .nested
  | levels + 1 => system.follow fun trail directory target =>
      followNested levels trail (targetBase directory target) (Text.split '/' target)

/-- Links whose targets lead through more links than this, one inside the other, are not followed. -/
def nestingLimit : Nat := 980

def canonical (path : Path) : Except CanonicalError Path :=
  let start := if path.IsAbsolute then Path.root else Path.here
  match system.followNested nestingLimit [] start path.names with
  | .error error => .error error
  | .ok reached =>
      let reached := Path.normalize system.current reached.path
      match system.status reached with
      | .error .embeddedNul => .error .embeddedNul
      | .error (.failed ⟨.tooManyLinks, _⟩) => .error (.linkCircle reached)
      | _ => .ok reached

end PathSearch.FileSystem
