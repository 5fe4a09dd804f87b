import PathSearch.Settings.Basic

namespace PathSearch

inductive Flag where
  | help
  | includeGlob
  | excludeGlob
  | extension
  | maxDepth
  | includeDirs
  | noFollowLinks
  | bestEffort
  | sort
  | nul
  | verbose
  | version
  deriving DecidableEq, Repr

namespace Flag

def all : List Flag :=
  [help, includeGlob, excludeGlob, extension, maxDepth, includeDirs, noFollowLinks, bestEffort, sort,
    nul, verbose, version]

theorem mem_all (flag : Flag) : flag ∈ all := by
  cases flag <;> simp [all]

def letter? : Flag → Option Char
  | help => some 'h'
  | includeGlob => some 'i'
  | excludeGlob => some 'e'
  | extension => some 'x'
  | maxDepth => some 'd'
  | nul => some '0'
  | verbose => some 'v'
  | _ => none

def word : Flag → String
  | help => "--help"
  | includeGlob => "--include"
  | excludeGlob => "--exclude"
  | extension => "--ext"
  | maxDepth => "--max-depth"
  | includeDirs => "--include-dirs"
  | noFollowLinks => "--no-follow-links"
  | bestEffort => "--best-effort"
  | sort => "--sort"
  | nul => "--null"
  | verbose => "--verbose"
  | version => "--version"

def takesValue : Flag → Bool
  | includeGlob | excludeGlob | extension | maxDepth => true
  | _ => false

/-- All spellings of an option, as messages name it. -/
def label (flag : Flag) : String :=
  match flag.letter? with
  | some letter =>
      let word := flag.word
      s!"-{letter}/{word}"
  | none => flag.word

/-- The field of a config file that an option stands above. -/
def field? : Flag → Option Field
  | includeGlob => some .includeGlobs
  | excludeGlob => some .excludeGlobs
  | extension => some .extensions
  | maxDepth => some .maxDepth
  | includeDirs => some .onlyFiles
  | noFollowLinks => some .followLinks
  | bestEffort => some .failFast
  | _ => none

/-- The options that are looked for when it is asked what was given: those that stand above a field,
and `-0`. -/
def marking : List Flag := all.filter fun flag => flag.field?.isSome || flag = nul

def ofLetter? (known : List Flag) (letter : Char) : Option Flag :=
  known.find? fun flag => flag.letter? = some letter

def ofWord? (known : List Flag) (word : Text) : Option Flag :=
  known.find? fun flag => flag.word.toList = word

def startingWith (known : List Flag) (start : Text) : List Flag :=
  known.filter fun flag => start.isPrefixOf flag.word.toList

end Flag

end PathSearch
