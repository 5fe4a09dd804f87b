import PathSearch.Path.Basic

namespace PathSearch.Path

def up : Text := ['.', '.']

/-- Adds one name to the names already collapsed, nearest first. Going up cancels the nearest name;
at a root there is nothing to go up to, and a path without a root keeps the climb. -/
def climb (anchor : Anchor) (above : List Text) (name : Text) : List Text :=
  if name = up then
    match above with
    | [] => if anchor = .here then [up] else []
    | nearest :: others => if nearest = up then up :: nearest :: others else others
  else name :: above

theorem isName_of_mem_climb {anchor : Anchor} {above : List Text} {name other : Text}
    (named : IsName name) (aboveNamed : ∀ held ∈ above, IsName held)
    (member : other ∈ climb anchor above name) : IsName other := by
  unfold climb at member
  split at member
  · rename_i same
    subst same
    cases above with
    | nil =>
        by_cases free : anchor = .here
        · simp only [free, if_true, List.mem_singleton] at member
          exact member ▸ named
        · simp [free] at member
    | cons nearest others =>
        by_cases climbing : nearest = up
        · simp only [climbing, if_true, List.mem_cons] at member
          rcases member with rfl | rfl | member
          · exact named
          · exact named
          · exact aboveNamed other (by simp [member])
        · simp only [climbing, if_false] at member
          exact aboveNamed other (by simp [member])
  · rcases List.mem_cons.mp member with rfl | member
    · exact named
    · exact aboveNamed other member

theorem isName_of_mem_foldl_climb {anchor : Anchor} {names above : List Text} {other : Text}
    (named : ∀ name ∈ names, IsName name) (aboveNamed : ∀ held ∈ above, IsName held)
    (member : other ∈ names.foldl (climb anchor) above) : IsName other := by
  induction names generalizing above with
  | nil => exact aboveNamed other member
  | cons name names ih =>
      exact ih (fun later inside => named later (by simp [inside]))
        (fun held inside => isName_of_mem_climb (named name (by simp)) aboveNamed inside) member

/-- The path with every `..` cancelled against the name before it. -/
def collapse (path : Path) : Path :=
  ⟨path.anchor, (path.names.foldl (climb path.anchor) []).reverse, fun _ member =>
    isName_of_mem_foldl_climb path.named (by simp) (List.mem_reverse.mp member)⟩

/-- The path as seen from the directory `current`, with every `..` cancelled. Links play no part:
this is about the text of the path alone. -/
def normalize (current path : Path) : Path := collapse (current ++ path)

end PathSearch.Path
