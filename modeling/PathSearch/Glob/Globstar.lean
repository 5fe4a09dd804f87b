import PathSearch.Text.Basic

namespace PathSearch.Glob

/-- A whole segment of two stars: any number of segments. -/
def globstar : Text := ['*', '*']

/-- What stands before and after the first two stars in a row. -/
def splitStars? : Text → Option (Text × Text)
  | '*' :: '*' :: rest => some ([], rest)
  | character :: rest =>
      (splitStars? rest).map fun (head, tail) => (character :: head, tail)
  | [] => none

theorem eq_of_splitStars? {segment head tail : Text}
    (found : splitStars? segment = some (head, tail)) : segment = head ++ '*' :: '*' :: tail := by
  fun_induction splitStars? segment generalizing head tail with
  | case1 rest => simp_all
  | case2 character rest _ ih =>
      obtain ⟨⟨before, after⟩, inner, same⟩ := Option.map_eq_some_iff.mp found
      cases same
      simp [ih inner]
  | case3 => simp at found

/-- The segment sequences that a segment stands for. Two stars inside a segment either stay within
it, as one star, or cross into other directories: the part before them ends one segment, the part
after them starts another, and any segments lie between. -/
def spread (segment : Text) : List (List Text) :=
  if segment = globstar then [[segment]]
  else
    match found : splitStars? segment with
    | none => [[segment]]
    | some (head, tail) =>
        have _shape := eq_of_splitStars? found
        spread (head ++ '*' :: tail) ++
          (spread ('*' :: tail)).map fun deeper => (head ++ ['*']) :: globstar :: deeper
termination_by segment.length
decreasing_by all_goals grind

/-- The segment sequences that segments in a row stand for, the leftmost choice varying slowest. -/
def spreadAll : List Text → List (List Text)
  | [] => [[]]
  | segment :: rest =>
      (spread segment).flatMap fun start => (spreadAll rest).map fun continued => start ++ continued

/-- The number of stars with another one right behind them. -/
def starPairs : Text → Nat
  | '*' :: '*' :: rest => starPairs ('*' :: rest) + 1
  | _ :: rest => starPairs rest
  | [] => 0

/-- How many expansions, each in the result of the one before, a segment takes: each leaves out one
star, and a globstar stays as it is. -/
def segmentExpansions (segment : Text) : Nat :=
  if segment.all (· = '*') then starPairs segment - 1 else starPairs segment

def starExpansions (glob : Text) : Nat :=
  (glob.split '/').foldr (fun segment total => segmentExpansions segment + total) 0

/-- The globs, without stars in pairs inside a segment, that together mean the same as `glob`. -/
def expandStars (glob : Text) : List Text :=
  ((spreadAll (glob.split '/')).map (Text.join '/')).eraseDups

end PathSearch.Glob
