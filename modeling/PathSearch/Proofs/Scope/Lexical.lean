import PathSearch.Proofs.Scope.Located
import PathSearch.Query

/-!
Normalization by text. A path text is put behind the directory one is in, and the pieces between its slashes are
looked through twice: what is left is the text of the normal path. Normalizing the front of a path first makes no
difference to the whole, so that a base is the same below a directory and below its normal form.
-/

namespace PathSearch

namespace Path

/-- Two path texts one behind the other; the second alone when it begins at a root. -/
def joined (first second : Text) : Text :=
  if ['/'].isPrefixOf second then second
  else if first = [] ∨ first.getLast? = some '/' then first ++ second
  else first ++ '/' :: second

/-- The slashes in front that are kept: two if there are exactly two, and else one if there are any. -/
def leadingSlashes (text : Text) : Text :=
  if ['/', '/'].isPrefixOf text ∧ ¬ ['/', '/', '/'].isPrefixOf text then ['/', '/']
  else if ['/'].isPrefixOf text then ['/']
  else []

/-- Adds a piece to those kept so far, nearest first. -/
def keepPiece (slashes : Text) (kept : List Text) (piece : Text) : List Text :=
  if piece = [] ∨ piece = ['.'] then kept
  else if piece ≠ up ∨ (slashes = [] ∧ kept = []) ∨ kept.head? = some up then piece :: kept
  else kept.tail

/-- The text without single dots and repeated slashes, and with every `..` taken back. -/
def normalText (text : Text) : Text :=
  let slashes := leadingSlashes text
  let kept := ((text.split '/').foldl (keepPiece slashes) []).reverse
  let whole := slashes ++ Text.join '/' kept
  if whole = [] then ['.'] else whole

/-- The normal text of what stands behind the directory `current`, made normal once more. -/
def normalizeText (current text : Text) : Text := normalText (normalText (joined current text))

section Slashes

variable {text first second : Text}

theorem anchor_ofText_slashes (inner : text.head? ≠ some '/') :
    Anchor.ofText ('/' :: '/' :: text) = .doubleRoot := by
  unfold Anchor.ofText
  split
  · rename_i same
    exact absurd (by rw [(List.cons.inj (List.cons.inj same).2).2]; rfl) inner
  · rfl
  · rename_i other same
    exact absurd (List.cons.inj same).2.symm (other _)
  · rename_i other _
    exact absurd rfl (other _)

/-- A text begins with no slash, with one, with two, or with more. -/
theorem slashes_cases (text : Text) :
    text.head? ≠ some '/' ∨ (∃ rest : Text, text = '/' :: rest ∧ rest.head? ≠ some '/') ∨
      (∃ rest : Text, text = '/' :: '/' :: rest ∧ rest.head? ≠ some '/') ∨
        ∃ rest : Text, text = '/' :: '/' :: '/' :: rest := by
  by_cases first : text.head? = some '/'
  · obtain ⟨rest, rfl⟩ := List.head?_eq_some_iff.mp first
    by_cases second : rest.head? = some '/'
    · obtain ⟨rest, rfl⟩ := List.head?_eq_some_iff.mp second
      by_cases third : rest.head? = some '/'
      · obtain ⟨rest, rfl⟩ := List.head?_eq_some_iff.mp third
        exact .inr (.inr (.inr ⟨rest, rfl⟩))
      · exact .inr (.inr (.inl ⟨rest, rfl, third⟩))
    · exact .inr (.inl ⟨rest, rfl, second⟩)
  · exact .inl first

theorem head?_append_ne (front : first.head? ≠ some '/') (behind : second.head? ≠ some '/' ∨ first ≠ []) :
    (first ++ second).head? ≠ some '/' := by
  cases first with
  | nil => simpa using behind
  | cons character first => exact front

/-- What is put behind a text leaves the root of the text as it is, unless slash comes to slash. -/
theorem anchor_ofText_append (apart : second.head? ≠ some '/' ∨ (first ≠ [] ∧ first.getLast? ≠ some '/')) :
    Anchor.ofText (first ++ second) = Anchor.ofText first := by
  rcases slashes_cases first with front | ⟨rest, rfl, front⟩ | ⟨rest, rfl, front⟩ | ⟨rest, rfl⟩
  · have behind := head?_append_ne front (apart.imp_right And.left)
    rw [anchor_ofText_of_head behind, anchor_ofText_of_head front]
  · have behind : (rest ++ second).head? ≠ some '/' := by
      refine head?_append_ne front (apart.imp_right fun ended none => ended.2 ?_)
      rw [none]
      rfl
    rw [List.cons_append, anchor_ofText_slash behind, anchor_ofText_slash front]
  · have behind : (rest ++ second).head? ≠ some '/' := by
      refine head?_append_ne front (apart.imp_right fun ended none => ended.2 ?_)
      rw [none]
      rfl
    rw [List.cons_append, List.cons_append, anchor_ofText_slashes behind, anchor_ofText_slashes front]
  · rfl

theorem leadingSlashes_eq (text : Text) : leadingSlashes text = (Anchor.ofText text).text := by
  have none : ∀ {rest : Text}, rest.head? ≠ some '/' → ['/'].isPrefixOf rest = false := by
    intro rest front
    cases rest with
    | nil => rfl
    | cons character rest =>
        have other : character ≠ '/' := fun same => front (congrArg some same)
        simp [List.isPrefixOf, Ne.symm other]
  have shorter : ∀ {rest : Text}, ['/', '/'].isPrefixOf rest = true → ['/'].isPrefixOf rest = true := by
    intro rest long
    rw [List.isPrefixOf_iff_prefix] at long ⊢
    exact (List.prefix_append ['/'] ['/']).trans long
  rcases slashes_cases text with front | ⟨rest, rfl, front⟩ | ⟨rest, rfl, front⟩ | ⟨rest, rfl⟩
  · have two : ¬ ['/', '/'].isPrefixOf text = true := fun long =>
      Bool.false_ne_true ((none front).symm.trans (shorter long))
    simp [anchor_ofText_of_head front, leadingSlashes, none front, two, Anchor.text]
  · simp [anchor_ofText_slash front, leadingSlashes, List.isPrefixOf, none front, Anchor.text]
  · simp [anchor_ofText_slashes front, leadingSlashes, List.isPrefixOf, none front, Anchor.text]
  · rfl

end Slashes

section Joined

variable {first second text : Text}

theorem namesOf_append_slash (first second : Text) :
    namesOf (first ++ '/' :: second) = namesOf first ++ namesOf second := by
  rw [namesOf, Text.split_append, List.filter_append]
  rfl

theorem append_of_not_isAbsolute {path : Path} (base : Path) (relative : ¬ path.IsAbsolute) :
    (base ++ path).anchor = base.anchor ∧ (base ++ path).names = base.names ++ path.names := by
  have whole : base ++ path = append base path := rfl
  rw [whole, append, if_neg relative]
  exact ⟨rfl, rfl⟩

theorem isAbsolute_ofText_iff : (ofText text).IsAbsolute ↔ text.head? = some '/' := by
  change Anchor.ofText text ≠ .here ↔ text.head? = some '/'
  rcases slashes_cases text with front | ⟨rest, rfl, front⟩ | ⟨rest, rfl, front⟩ | ⟨rest, rfl⟩
  · simp [anchor_ofText_of_head front, front]
  · simp [anchor_ofText_slash front]
  · simp [anchor_ofText_slashes front]
  · simp [Anchor.ofText]

/-- Joining texts is joining the paths that they write. -/
theorem ofText_joined (first second : Text) : ofText (joined first second) = ofText first ++ ofText second := by
  by_cases rooted : second.head? = some '/'
  · have start : ['/'].isPrefixOf second = true := by
      obtain ⟨rest, rfl⟩ := List.head?_eq_some_iff.mp rooted
      rfl
    rw [append_of_isAbsolute _ (isAbsolute_ofText_iff.mpr rooted), joined, if_pos start]
  · have start : ¬ ['/'].isPrefixOf second = true := by
      intro start
      obtain ⟨rest, rfl⟩ := List.isPrefixOf_iff_prefix.mp start
      exact rooted rfl
    obtain ⟨anchor, names⟩ := append_of_not_isAbsolute (ofText first) (mt isAbsolute_ofText_iff.mp rooted)
    apply ext
    · rw [anchor, joined, if_neg start]
      split
      · exact anchor_ofText_append (.inl rooted)
      · rename_i apart
        exact anchor_ofText_append (.inr (not_or.mp apart))
    · rw [names, joined, if_neg start]
      split
      · rename_i ended
        rcases ended with rfl | slash
        · rfl
        · obtain ⟨front, rfl⟩ := List.getLast?_eq_some_iff.mp slash
          have alone : namesOf (front ++ ['/']) = namesOf front := by
            rw [namesOf_append_slash]
            exact List.append_nil _
          change namesOf (front ++ ['/'] ++ second) = namesOf (front ++ ['/']) ++ namesOf second
          rw [alone, List.append_assoc]
          exact namesOf_append_slash front second
      · exact namesOf_append_slash first second

/-- What a path is written as is read back. -/
theorem ofText_text (path : Path) : ofText path.text = path := by
  obtain ⟨anchor, names, named⟩ := path
  cases anchor with
  | here =>
      cases names with
      | nil => rfl
      | cons name names => exact ext (anchor_ofText_join named) (namesOf_join named)
  | root =>
      exact ext (anchor_ofText_slash_join named) ((namesOf_slash _).trans (namesOf_join named))
  | doubleRoot =>
      have names := (namesOf_slash ('/' :: Text.join '/' names)).trans (namesOf_slash _)
      exact ext (anchor_ofText_slashes (head?_join_ne named)) (names.trans (namesOf_join named))

end Joined

section Kept

variable {text : Text}

theorem keepPiece_eq (anchor : Anchor) {piece : Text} (whole : '/' ∉ piece) (kept : List Text) :
    keepPiece anchor.text kept piece = if IsName piece then climb anchor kept piece else kept := by
  have here : anchor.text = [] ↔ anchor = .here := by cases anchor <;> simp [Anchor.text]
  by_cases named : IsName piece
  · rw [if_pos named, keepPiece, if_neg (not_or.mpr ⟨named.1, named.2.2⟩)]
    by_cases rises : piece = up
    · cases kept with
      | nil => simp [climb, rises, here]
      | cons nearest others => simp [climb, rises]
    · simp [climb, rises]
  · have trace : piece = [] ∨ piece = ['.'] := Decidable.byContradiction fun other =>
      named ⟨(not_or.mp other).1, whole, (not_or.mp other).2⟩
    rw [if_neg named, keepPiece, if_pos trace]

theorem foldl_keepPiece (anchor : Anchor) {pieces : List Text} (whole : ∀ piece ∈ pieces, '/' ∉ piece)
    (kept : List Text) :
    pieces.foldl (keepPiece anchor.text) kept =
      (pieces.filter fun piece => IsName piece).foldl (climb anchor) kept := by
  induction pieces generalizing kept with
  | nil => rfl
  | cons piece pieces ih =>
      rw [List.forall_mem_cons] at whole
      rw [List.foldl_cons, keepPiece_eq anchor whole.1]
      by_cases named : IsName piece
      · rw [if_pos named, List.filter_cons_of_pos (by simpa using named), List.foldl_cons]
        exact ih whole.2 _
      · rw [if_neg named, List.filter_cons_of_neg (by simpa using named)]
        exact ih whole.2 _

/-- What the text becomes is the text of the path that it writes, collapsed. -/
theorem normalText_eq (text : Text) : normalText text = (collapse (ofText text)).text := by
  rw [text_eq, normalText, leadingSlashes_eq,
    foldl_keepPiece _ fun piece member => Text.separator_notMem_of_mem_split member]
  rfl

end Kept

section Collapse

variable {current path rest : Path}

theorem isNormal_collapse (absolute : path.IsAbsolute) : (collapse path).IsNormal := by
  refine ⟨absolute, fun member => ?_⟩
  exact up_notMem_foldl_climb absolute path.names (by simp) (List.mem_reverse.mp member)

theorem collapse_collapse (absolute : path.IsAbsolute) : collapse (collapse path) = collapse path :=
  collapse_eq_self (isNormal_collapse absolute).2

theorem append_append (first second third : Path) : first ++ second ++ third = first ++ (second ++ third) := by
  by_cases last : third.IsAbsolute
  · rw [append_of_isAbsolute _ last, append_of_isAbsolute second last, append_of_isAbsolute _ last]
  · by_cases middle : second.IsAbsolute
    · rw [append_of_isAbsolute first middle, append_of_isAbsolute first (isAbsolute_append middle third)]
    · obtain ⟨inner, innerNames⟩ := append_of_not_isAbsolute second last
      have later : ¬ (second ++ third).IsAbsolute := by rwa [IsAbsolute, inner]
      obtain ⟨front, frontNames⟩ := append_of_not_isAbsolute first middle
      obtain ⟨left, leftNames⟩ := append_of_not_isAbsolute (first ++ second) last
      obtain ⟨right, rightNames⟩ := append_of_not_isAbsolute first later
      apply ext
      · rw [left, front, right]
      · rw [leftNames, frontNames, rightNames, innerNames, List.append_assoc]

/-- Collapsing the front of a path first makes no difference to the whole, however far the rest climbs. -/
theorem collapse_append (absolute : path.IsAbsolute) (rest : Path) :
    collapse (collapse path ++ rest) = collapse (path ++ rest) := by
  by_cases rooted : rest.IsAbsolute
  · rw [append_of_isAbsolute _ rooted, append_of_isAbsolute _ rooted]
  · obtain ⟨anchor, names⟩ := append_of_not_isAbsolute path rooted
    obtain ⟨sameAnchor, fewerNames⟩ := append_of_not_isAbsolute (collapse path) rooted
    apply ext
    · exact sameAnchor.trans anchor.symm
    · -- The names that are left of the front are passed again without going up.
      have front : (collapse path).names.foldl (climb path.anchor) [] =
          path.names.foldl (climb path.anchor) [] := by
        rw [foldl_climb_of_up_notMem (isNormal_collapse absolute).2]
        simp [collapse]
      change (((collapse path ++ rest).names.foldl (climb (collapse path ++ rest).anchor) [])).reverse =
        ((path ++ rest).names.foldl (climb (path ++ rest).anchor) []).reverse
      rw [sameAnchor, anchor, fewerNames, names, List.foldl_append, List.foldl_append]
      exact congrArg (fun above => (rest.names.foldl (climb path.anchor) above).reverse) front

theorem normalize_append (absolute : current.IsAbsolute) (path rest : Path) :
    normalize current (normalize current path ++ rest) = normalize current (path ++ rest) := by
  have rooted := isAbsolute_append absolute path
  rw [normalize, append_of_isAbsolute current (isAbsolute_append (isNormal_normalize absolute path).1 rest),
    normalize, collapse_append rooted, append_append, normalize]

theorem normalize_ofText (absolute : current.IsAbsolute) (text : Text) :
    (normalize current (ofText text)).text = normalizeText current.text text := by
  rw [normalizeText, normalText_eq, normalText_eq, ofText_text, ofText_joined, ofText_text,
    collapse_collapse (isAbsolute_append absolute _), normalize]

end Collapse

end Path

namespace LocatedGlob

variable {current start : Path} {glob : Text}

theorem join_literalSegments_eq_nil_iff : Text.join '/' (literalSegments glob) = [] ↔ literalSegments glob = [] := by
  constructor
  · intro empty
    by_cases none : literalSegments glob = []
    · exact none
    · obtain ⟨segment, rest, shape⟩ := List.exists_cons_of_ne_nil none
      have held : segment ∈ literalSegments glob := by simp [shape]
      have some : segment ≠ [] := by
        simpa using (List.mem_filter.mp ((List.takeWhile_prefix _).subset held)).2
      rw [shape] at empty
      cases rest with
      | nil => exact absurd empty some
      | cons next rest => simp [Text.join] at empty
  · intro none
    rw [none]
    rfl

theorem baseOf_of_unnamed (relative : isAbsoluteGlob glob = false) (unnamed : literalSegments glob = []) :
    baseOf current start glob = start := by
  simp [baseOf, relative, unnamed, Text.join]

theorem baseOf_of_named (relative : isAbsoluteGlob glob = false) (named : literalSegments glob ≠ []) :
    baseOf current start glob =
      Path.normalize current (start ++ Path.ofText (Text.join '/' (literalSegments glob))) := by
  have some := mt join_literalSegments_eq_nil_iff.mp named
  simp [baseOf, relative, some]

/-- Normalizing is canonical: it comes to an absolute path without empty names, single dots and `..`, and leaves
such a path as it is. It is compositional: the front of a path may be normalized first. So a relative glob that
begins with a literal segment has one base under a directory and under its normal form; any other relative glob
has the directory itself as its base, and a query normalizes its directory before it comes to any glob. -/
theorem normalize_compositional (absolute : current.IsAbsolute) (front rest : Text) :
    let path := Path.ofText front
    let normal := Path.normalize current path
    normal.text = Path.normalizeText current.text front ∧
      normal.IsAbsolute ∧ (∀ name ∈ normal.names, name ≠ [] ∧ name ≠ ['.'] ∧ name ≠ Path.up) ∧
        Path.normalize current normal = normal ∧
          Path.normalize current (normal ++ Path.ofText rest) = Path.normalize current (path ++ Path.ofText rest) ∧
            (∀ glob, isAbsoluteGlob glob = false →
              (literalSegments glob ≠ [] → baseOf current path glob = baseOf current normal glob) ∧
                (literalSegments glob = [] →
                  baseOf current path glob = path ∧ baseOf current normal glob = normal)) ∧
              ∀ query : Query, query.baseDir = path →
                Query.normalizedBaseDir current { query with baseDir := normal } =
                  query.normalizedBaseDir current := by
  intro path normal
  have isNormal : normal.IsNormal := Path.isNormal_normalize absolute path
  have fixed : Path.normalize current normal = normal := Path.normalize_eq_self current isNormal
  refine ⟨Path.normalize_ofText absolute front, isNormal.1, ?_, fixed, Path.normalize_append absolute path _, ?_, ?_⟩
  · intro name held
    have named := normal.named name held
    exact ⟨named.1, named.2.2, fun rises => isNormal.2 (rises ▸ held)⟩
  · intro glob relative
    constructor
    · intro named
      rw [baseOf_of_named relative named, baseOf_of_named relative named, Path.normalize_append absolute]
    · exact fun unnamed => ⟨baseOf_of_unnamed relative unnamed, baseOf_of_unnamed relative unnamed⟩
  · intro query same
    rw [Query.normalizedBaseDir, Query.normalizedBaseDir, same]
    exact fixed

/-- The front climbs above a root of two slashes, and the rest takes back a name of the front. -/
theorem normalize_compositional_climbing :
    let current := Path.ofString "//home"
    let path := Path.ofString "../..//./x/y"
    let normal := Path.normalize current path
    current.IsAbsolute ∧ normal.text = "//x/y".toList ∧
      Path.normalize current (normal ++ Path.ofString "../../../z") = Path.ofString "//z" ∧
        Path.normalize current (path ++ Path.ofString "../../../z") = Path.ofString "//z" ∧
          baseOf current path "../z/*.md".toList = baseOf current normal "../z/*.md".toList := by
  intro current path normal
  have absolute : current.IsAbsolute := by decide
  obtain ⟨text, -, -, -, composed, globs, -⟩ :=
    normalize_compositional absolute (Text.ofString "../..//./x/y") (Text.ofString "../../../z")
  have whole : Path.normalize current (normal ++ Path.ofString "../../../z") = Path.ofString "//z" := by decide
  exact ⟨absolute, text, whole, composed.symm.trans whole, (globs _ (by decide)).1 (by decide)⟩

/-- A glob that begins with a wildcard is looked for below the directory as it stands. -/
theorem not_baseOf_normalized :
    let current := Path.root
    let start := Path.ofString "x/../y"
    isAbsoluteGlob "*.md".toList = false ∧
      baseOf current start "*.md".toList ≠ baseOf current (Path.normalize current start) "*.md".toList := by
  decide

end LocatedGlob

end PathSearch
