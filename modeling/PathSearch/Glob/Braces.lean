import PathSearch.Glob.Error

namespace PathSearch.Glob

/-!
Brace groups. A text is read into characters and groups, a group offers options that are texts of
the same kind, and the alternatives of a text are what remains when every group has been replaced by
one of its options.
-/

/-- One element of a text with brace groups. -/
inductive Braced where
  | char (character : Char)
  | group (options : List (List Braced))

namespace Braced

mutual

def text : Braced → Text
  | .char character => [character]
  | .group options => '\x7b' :: textOfOptions options ++ ['\x7d']

def textOfAll : List Braced → Text
  | [] => []
  | element :: rest => element.text ++ textOfAll rest

/-- The written form of the options of one group, with a comma between neighbours. -/
def textOfOptions : List (List Braced) → Text
  | [] => []
  | [option] => textOfAll option
  | option :: others => textOfAll option ++ ',' :: textOfOptions others

end

mutual

/-- The texts that one element can stand for. -/
def choices : Braced → List Text
  | .char character => [[character]]
  | .group options => choicesOfOptions options

/-- The texts that elements in a row can stand for, the leftmost choice varying slowest. -/
def choicesOfAll : List Braced → List Text
  | [] => [[]]
  | element :: rest =>
      element.choices.flatMap fun start => (choicesOfAll rest).map fun continued => start ++ continued

/-- The texts that the options of one group can stand for, option by option. -/
def choicesOfOptions : List (List Braced) → List Text
  | [] => []
  | option :: others => choicesOfAll option ++ choicesOfOptions others

end

/-- A group that has been opened and not yet closed: the elements before it and its finished
options, both with the latest first. -/
structure Open where
  before : List Braced
  options : List (List Braced)

/-- Where the braces of a text stop being balanced: the elements before that place. -/
structure Imbalance where
  reason : Reason
  before : List Braced

/-- Reads on with the groups of `outer` still open, innermost first, and the elements read since the last brace
or separating comma, latest first. -/
def readFrom : List Open → List Braced → Text → Except Imbalance (List Braced)
  | [], current, [] => .ok current.reverse
  | inner :: others, _, [] =>
      .error ⟨.unclosedBrace, (others.getLastD inner).before.reverse⟩
  | outer, current, character :: rest =>
      if character = '\x7b' then readFrom (⟨current, []⟩ :: outer) [] rest
      else
        match outer with
        | [] =>
            if character = '\x7d' then .error ⟨.unmatchedBrace, current.reverse⟩
            else readFrom [] (.char character :: current) rest
        | inner :: others =>
            if character = '\x7d' then
              let options := (current.reverse :: inner.options).reverse
              readFrom others (.group options :: inner.before) rest
            else if character = ',' then
              readFrom (⟨inner.before, current.reverse :: inner.options⟩ :: others) [] rest
            else readFrom (inner :: others) (.char character :: current) rest

def read (text : Text) : Except Imbalance (List Braced) := readFrom [] [] text

mutual

/-- How many groups are replaced one after the other on the way to a text that an element can stand
for; `choose` decides between what the options of a group take. -/
def expansions (choose : Nat → Nat → Nat) : Braced → Nat
  | .char _ => 0
  | .group options => expansionsOfOptions choose options + 1

def expansionsOfAll (choose : Nat → Nat → Nat) : List Braced → Nat
  | [] => 0
  | element :: rest => element.expansions choose + expansionsOfAll choose rest

def expansionsOfOptions (choose : Nat → Nat → Nat) : List (List Braced) → Nat
  | [] => 0
  | option :: others => choose (expansionsOfAll choose option) (expansionsOfOptions choose others)

end

end Braced

/-- The alternatives of a text with brace groups, without repetition, in the order of the choices
from left to right. -/
def alternatives (text : Text) : Except Reason (List Text) :=
  match Braced.read text with
  | .ok elements => .ok (Braced.choicesOfAll elements).eraseDups
  | .error imbalance => .error imbalance.reason

/-- How many groups are replaced one after the other before a text is expanded, or found not to be
balanced. Groups are replaced from the left, and the first option of each is looked into first; to say
what is wrong takes one step more. -/
def groupExpansions (text : Text) : Nat :=
  match Braced.read text with
  | .ok elements => Braced.expansionsOfAll max elements
  | .error imbalance => Braced.expansionsOfAll (fun first _ => first) imbalance.before + 1

end PathSearch.Glob
