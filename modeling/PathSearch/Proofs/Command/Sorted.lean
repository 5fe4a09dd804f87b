import PathSearch.Proofs.Command.Printing
import PathSearch.Proofs.Scope.Lexical
import PathSearch.Proofs.Tree.Leads

/-!
Sorted output. A failure, which can come as late as the last step of the merge, finds nothing written, since the
paths are sorted only when all of them are there. What is written is then the whole result, and since no path that
is found has a NUL in it, the result can be read back from the NULs between the paths.
-/

namespace PathSearch

theorem Walk.clear_of_mem_toList {system : FileSystem} {options : WalkOptions} {root path : Path} {walk : Walk}
    (started : start system options root = .ok walk) {kind : Bool}
    (walked : .entry path kind ∈ toList system options walk) : ∀ name ∈ path.names, Char.ofNat 0 ∉ name := by
  obtain ⟨⟨location, node⟩, status, -⟩ := bind_eq_ok.mp started
  have above := FileSystem.clear_of_resolve (FileSystem.resolve_of_status status).1
  obtain ⟨-, names, split, entries⟩ := below_of_mem_toList started walked
  rw [split]
  exact List.forall_mem_append.mpr ⟨above, fun name member => (entries name member).2.2⟩

theorem Search.Finds.clear {search : Search} {path : Path} (finds : search.Finds path) :
    Char.ofNat 0 ∉ path.text := by
  obtain ⟨group, -, walk, opened, ⟨kind, walked⟩, -⟩ := finds
  exact Path.notMem_text (by decide) (by decide) (Walk.clear_of_mem_toList opened walked)

namespace Command

/-- The output is the complete result of a search: the paths that it finds, each once, in increasing order, with
the terminator behind each of them. -/
structure Whole (terminator : Char) (search : Search) (paths : List Path) (output : Text) : Prop where
  written : output = paths.flatMap fun path => path.text ++ [terminator]
  found : ∀ path, path ∈ paths ↔ search.Finds path
  increasing : paths.Pairwise fun first second => Path.le first second = true ∧ first ≠ second

/-- The run returns the status of an error, or it raises. -/
def Ending.Failing (ending : Ending) : Prop :=
  ending = .returned 1 ∨ ending = .returned 2 ∨ ∃ failure, ending = .raised failure

theorem failing_endingOf (written : Text) (error : ScanError) : (endingOf written error).Failing := by
  cases error with
  | notStarted => exact .inr (.inl rfl)
  | _ => exact .inr (.inr ⟨_, rfl⟩)

section Sorted

variable {environment : Environment} {arguments : List Text} {options : Options} {search : Search}
  {limits : Merge.Limits} {trace : Merge.Trace Path ScanError} {system : FileSystem} {query : Query}
  {tracing : Bool} {paths : List Path} {output : Text}

theorem whole_of_endsNormally (absolute : system.current.IsAbsolute)
    (made : Search.ofQuery system query tracing = .ok search)
    (traced : Merge.Traced limits search.scripts trace) (ends : trace.EndsNormally)
    (sorted : options.sorted = true) :
    Whole (terminator options) search (Path.sort trace.yielded) (written options trace.yielded) where
  written := by
    rw [written, if_pos sorted]
    rfl
  found := by
    intro path
    rw [(Path.sort_perm trace.yielded).mem_iff, Search.mem_yielded_iff absolute made traced ends]
  increasing := by
    have distinct : (Path.sort trace.yielded).Nodup :=
      (Path.sort_perm trace.yielded).nodup_iff.mpr traced.faithful.distinct
    exact (Path.sort_pairwise trace.yielded).and distinct

theorem Whole.split_nul (whole : Whole (Char.ofNat 0) search paths output) :
    output.split (Char.ofNat 0) = paths.map Path.text ++ [[]] := by
  have texts : ∀ text ∈ paths.map Path.text, Char.ofNat 0 ∉ text := by
    intro text member
    obtain ⟨path, inside, rfl⟩ := List.mem_map.mp member
    exact ((whole.found path).mp inside).clear
  rw [whole.written, ← Text.split_terminated texts, List.flatMap_map]

theorem map_ofText_text (paths : List Path) : (paths.map Path.text).map Path.ofText = paths := by
  rw [List.map_map]
  exact List.map_id'' Path.ofText_text paths

/-- Sorted output is all or nothing. -/
theorem sorted_whole_or_silent {line : CommandLine} (absolute : environment.system.current.IsAbsolute)
    (read : CommandLine.read arguments = .ok line) (sorted : line.options.sorted = true)
    (plain : line.options.showsVersion = false) :
    (∀ performance, Performs environment arguments performance →
      performance.output = [] ∧ performance.ending.Failing ∨
      performance.ending = .returned 0 ∧ ∃ found notices merged search paths,
        settings environment = .ok (found, notices) ∧ merged = line.options.merge found line.marked ∧
        Search.ofQuery environment.system merged.query (merged.level = .trace) = .ok search ∧
        Whole (terminator line.options) search paths performance.output ∧
        (line.options.nulSeparated = true →
          performance.output.split (Char.ofNat 0) = paths.map Path.text ++ [[]] ∧
            (paths.map Path.text).map Path.ofText = paths)) ∧
      (∀ options search, prepared environment arguments = .ok (options, search) →
        ∀ limits, 0 < limits.workers → 0 < limits.capacity →
          ∀ printing, Printing.Reached options limits search.scripts printing →
            printing.Finishes options limits) ∧
      Performs environment arguments (performanceOf (run environment arguments)) := by
  refine ⟨?_, ?_, performs_run environment arguments⟩
  · intro performance performs
    cases performs with
    | early ended =>
        obtain ⟨silent, ending⟩ := prepared_eq_error read plain ended
        refine .inl ⟨silent, ?_⟩
        rcases ending with status | failed
        · exact .inl status
        · exact .inr (.inr failed)
    | @searched options search limits trace output ending made reached =>
        obtain ⟨same, found, notices, again, loaded, rfl, asked⟩ := prepared_eq_ok made
        cases read.symm.trans again
        obtain ⟨traced, ⟨ends, rfl, rfl⟩ | ⟨error, given, rfl, rfl⟩⟩ := reached.cases_over
        · -- No setting is about the order or the terminator, so that these are as the line has them.
          have kept : (line.options.merge found line.marked).sorted = true := sorted
          have whole := whole_of_endsNormally absolute asked traced ends kept
          refine .inr ⟨rfl, found, notices, _, search, _, loaded, rfl, asked, whole, ?_⟩
          intro nul
          have terminated : terminator (line.options.merge found line.marked) = Char.ofNat 0 := if_pos nul
          rw [terminated] at whole
          exact ⟨whole.split_nul, map_ofText_text _⟩
        · exact .inl ⟨if_pos sorted, failing_endingOf _ error⟩
  · intro options search _ limits workers capacity printing reached
    exact reached.finishes workers capacity

/-- One file at the root, and what is read back from the output as the only path found. -/
theorem sorted_whole_or_silent_one_file :
    let environment : Environment := ⟨⟨Tree.empty.add [['f']] (.file .empty), [], .root⟩, fun _ => none, none⟩
    let arguments : List Text := [['-', '-', 's', 'o', 'r', 't'], ['-', '0']]
    let line : CommandLine := ⟨[.switch .sort, .switch .nul], []⟩
    (environment.system.current.IsAbsolute ∧ CommandLine.read arguments = .ok line ∧
      line.options.sorted = true ∧ line.options.showsVersion = false) ∧
      Performs environment arguments ⟨['/', 'f', Char.ofNat 0], .returned 0⟩ ∧
      ∃ search, Search.ofQuery environment.system line.options.query false = .ok search ∧
        ∀ path, search.Finds path ↔ path = .ofText ['/', 'f'] := by
  intro environment arguments line
  have absolute : environment.system.current.IsAbsolute := by decide
  have read : CommandLine.read arguments = .ok line := eq_ok_of_toOption (by decide +kernel)
  have loaded : settings environment = .ok ({}, []) := rfl
  obtain ⟨whole, -, performs⟩ := sorted_whole_or_silent absolute read rfl rfl
  have performed : performanceOf (run environment arguments) = ⟨['/', 'f', Char.ofNat 0], .returned 0⟩ := by
    decide +kernel
  rw [performed] at performs
  refine ⟨⟨absolute, read, rfl, rfl⟩, performs, ?_⟩
  rcases whole _ performs with
    ⟨silent, -⟩ | ⟨-, found, notices, merged, search, paths, again, rfl, made, written, split⟩
  · cases silent
  · cases loaded.symm.trans again
    obtain ⟨pieces, back⟩ := split rfl
    have texts : paths.map Path.text = [['/', 'f']] := List.append_cancel_right (pieces.symm.trans (by decide))
    rw [texts] at back
    refine ⟨search, made, fun path => ?_⟩
    rw [← written.found, ← back]
    exact List.mem_singleton

end Sorted

end Command

end PathSearch
