import PathSearch.Command.Run
import PathSearch.Proofs.Merge.Closing
import PathSearch.Proofs.Search.Refusal

/-!
What the command writes, step by step, while the scans run in any order. What it writes early it writes of paths
just given to it, and what it writes late only after the merge has come to a normal end. The command that runs its
scans on one schedule is one of these runs, and each of them comes to be over.
-/

namespace PathSearch.Command

/-- How a run ends for its caller. -/
inductive Ending where
  | returned (status : Nat)
  | raised (failure : Failure)
  deriving DecidableEq

/-- The ending when a scan fails after this has been written. -/
def endingOf (written : Text) : ScanError → Ending
  | .notStarted _ _ => .returned 2
  | error => .raised (.scan error written)

/-- What stands behind each path in the output. -/
def terminator (options : Options) : Char := if options.nulSeparated then Char.ofNat 0 else '\n'

def lineOf (options : Options) (path : Path) : Text := path.text ++ [terminator options]

/-- What is written at once of paths that the merge gives. -/
def echoed (options : Options) (paths : List Path) : Text :=
  if options.sorted then [] else paths.flatMap (lineOf options)

/-- The paths that are left to write when the merge has given all of them. -/
def delayed (options : Options) (paths : List Path) : List Path := if options.sorted then Path.sort paths else []

/-- The command reads paths from the merge, has paths left to write, or is over. -/
inductive Progress where
  | reading
  | writing (left : List Path)
  | ended (ending : Ending)

structure Printing where
  trace : Merge.Trace Path ScanError
  output : Text
  progress : Progress

namespace Printing

def initial (scripts : List (Merge.Script Path ScanError)) : Printing := ⟨.initial scripts, [], .reading⟩

/-- A step of the merge, which may give the command a path, or one of the command. The command does not close the
merge before that has come to its end. -/
inductive Steps (options : Options) (limits : Merge.Limits) : Printing → Printing → Prop where
  | merge {before after : Merge.Trace Path ScanError} {event : Merge.Event} {output : Text} {more : List Path}
      (unclosed : event ≠ .close) (steps : before.Steps limits event after)
      (given : after.yielded = before.yielded ++ more) :
      Steps options limits ⟨before, output, .reading⟩ ⟨after, output ++ echoed options more, .reading⟩
  | fail {trace : Merge.Trace Path ScanError} {output : Text} {error : ScanError}
      (gone : trace.state.consumer = .gone) (failed : trace.failures.head? = some error) :
      Steps options limits ⟨trace, output, .reading⟩ ⟨trace, output, .ended (endingOf output error)⟩
  | collect {trace : Merge.Trace Path ScanError} {output : Text}
      (gone : trace.state.consumer = .gone) (unfailed : trace.failures = []) :
      Steps options limits ⟨trace, output, .reading⟩ ⟨trace, output, .writing (delayed options trace.yielded)⟩
  | write {trace : Merge.Trace Path ScanError} {output : Text} {path : Path} {left : List Path} :
      Steps options limits ⟨trace, output, .writing (path :: left)⟩
        ⟨trace, output ++ lineOf options path, .writing left⟩
  | finish {trace : Merge.Trace Path ScanError} {output : Text} :
      Steps options limits ⟨trace, output, .writing []⟩ ⟨trace, output, .ended (.returned 0)⟩

/-- The states that some order of steps leads to. -/
inductive Reached (options : Options) (limits : Merge.Limits) (scripts : List (Merge.Script Path ScanError)) :
    Printing → Prop where
  | initial : Reached options limits scripts (.initial scripts)
  | step {before after : Printing} (reached : Reached options limits scripts before)
      (steps : Steps options limits before after) : Reached options limits scripts after

/-- The state of the merge or the progress of the command differs. -/
def Changes (before after : Printing) : Prop :=
  after.trace.state ≠ before.trace.state ∨ after.progress ≠ before.progress

/-- However it goes on, the command comes to be over. Steps that change nothing are not looked at. -/
inductive Finishes (options : Options) (limits : Merge.Limits) : Printing → Prop where
  | ended {trace : Merge.Trace Path ScanError} {output : Text} {ending : Ending} :
      Finishes options limits ⟨trace, output, .ended ending⟩
  | ahead {before : Printing} (possible : ∃ after, Steps options limits before after ∧ before.Changes after)
      (always : ∀ after, Steps options limits before after → before.Changes after →
        Finishes options limits after) : Finishes options limits before

end Printing

/-- What a run writes and how it ends. -/
structure Performance where
  output : Text
  ending : Ending
  deriving DecidableEq

/-- What a command does before it searches: the search that it comes to make and its options, or the run as a whole
when it makes none. -/
def prepared (environment : Environment) (arguments : List Text) : Except Performance (Options × Search) :=
  match CommandLine.read arguments with
  | .error refusal => .error ⟨(refused refusal).output, .returned (refused refusal).status⟩
  | .ok line =>
      if line.options.showsVersion then .error ⟨(versionLine environment.version).toList, .returned 0⟩
      else
        match settings environment with
        | .error error => .error ⟨[], .raised (.settings error)⟩
        | .ok (settings, _) =>
            if line.lacksValue settings then .error ⟨[], .raised .bareOption⟩
            else
              let options := line.options.merge settings line.marked
              match Search.ofQuery environment.system options.query (options.level = .trace) with
              | .error (.malformed _ _) => .error ⟨[], .returned 1⟩
              | .error error => .error ⟨[], .raised (.pattern error)⟩
              | .ok search => .ok (options, search)

/-- The runs of the command, one for each order in which the steps of the merge come. -/
inductive Performs (environment : Environment) (arguments : List Text) : Performance → Prop where
  | early {performance : Performance} (ended : prepared environment arguments = .error performance) :
      Performs environment arguments performance
  | searched {options : Options} {search : Search} {limits : Merge.Limits}
      {trace : Merge.Trace Path ScanError} {output : Text} {ending : Ending}
      (made : prepared environment arguments = .ok (options, search))
      (reached : Printing.Reached options limits search.scripts ⟨trace, output, .ended ending⟩) :
      Performs environment arguments ⟨output, ending⟩

/-- A result of the command as a performance. -/
def performanceOf : Except Failure Outcome → Performance
  | .ok outcome => ⟨outcome.output, .returned outcome.status⟩
  | .error failure => ⟨failure.written, .raised failure⟩

section Writing

variable (options : Options)

theorem echoed_nil : echoed options [] = [] := ite_self _

theorem echoed_append (first second : List Path) :
    echoed options (first ++ second) = echoed options first ++ echoed options second := by
  unfold echoed
  split
  · rfl
  · exact List.flatMap_append

/-- What is written at once and what is written late make up the whole. -/
theorem echoed_append_delayed (paths : List Path) :
    echoed options paths ++ (delayed options paths).flatMap (lineOf options) = written options paths := by
  have whole : written options paths =
      (if options.sorted then Path.sort paths else paths).flatMap (lineOf options) := rfl
  rw [whole, echoed, delayed]
  split
  · rfl
  · rw [List.flatMap_nil, List.append_nil]

theorem echoed_eq (paths : List Path) :
    echoed options paths = if options.sorted then [] else written options paths := by
  cases sorted : options.sorted with
  | true => simp [echoed, sorted]
  | false => simp [← echoed_append_delayed, delayed, sorted]

end Writing

namespace Printing

variable {options : Options} {limits : Merge.Limits} {scripts : List (Merge.Script Path ScanError)}
  {trace : Merge.Trace Path ScanError} {output : Text} {before after printing : Printing}

theorem exists_more {before after : Merge.Trace Path ScanError} {event : Merge.Event}
    (steps : before.Steps limits event after) : ∃ more, after.yielded = before.yielded ++ more := by
  cases steps with
  | receive => exact ⟨_, List.filterMap_append⟩
  | other => exact ⟨[], (List.append_nil _).symm⟩

section Account

/-- What has been written, at each point of the progress. -/
def Account (options : Options) (trace : Merge.Trace Path ScanError) (output : Text) : Progress → Prop
  | .reading => output = echoed options trace.yielded
  | .writing left => trace.EndsNormally ∧ ∃ done, delayed options trace.yielded = done ++ left ∧
      output = echoed options trace.yielded ++ done.flatMap (lineOf options)
  | .ended ending =>
      (trace.EndsNormally ∧ ending = .returned 0 ∧ output = written options trace.yielded) ∨
        ∃ error ∈ trace.failures, ending = endingOf output error ∧ output = echoed options trace.yielded

structure Sound (options : Options) (limits : Merge.Limits) (scripts : List (Merge.Script Path ScanError))
    (printing : Printing) : Prop where
  traced : Merge.Traced limits scripts printing.trace
  unclosed : ¬ printing.trace.Closed
  account : Account options printing.trace printing.output printing.progress

theorem sound_initial : Sound options limits scripts (.initial scripts) where
  traced := .initial
  unclosed := by simp [Merge.Trace.Closed, initial, Merge.Trace.initial]
  account := (echoed_nil options).symm

theorem Sound.step (sound : Sound options limits scripts before) (steps : Steps options limits before after) :
    Sound options limits scripts after := by
  obtain ⟨traced, clear, account⟩ := sound
  cases steps with
  | merge unclosed steps given =>
      refine ⟨traced.step steps, ?_, ?_⟩
      · rw [steps.closed_iff]
        exact not_or.mpr ⟨clear, unclosed⟩
      · simp only [Account] at account ⊢
        rw [given, echoed_append, account]
  | fail gone failed => exact ⟨traced, clear, .inr ⟨_, List.mem_of_head? failed, rfl, account⟩⟩
  | collect gone unfailed =>
      refine ⟨traced, clear, ⟨gone, clear, unfailed⟩, [], rfl, ?_⟩
      rw [List.flatMap_nil, List.append_nil]
      exact account
  | @write _ _ path _ =>
      obtain ⟨ends, done, left, same⟩ := account
      refine ⟨traced, clear, ends, done ++ [path], ?_, ?_⟩
      · rw [left, List.append_assoc, List.singleton_append]
      · dsimp only at same ⊢
        rw [same, List.flatMap_append, List.flatMap_singleton, List.append_assoc]
  | finish =>
      obtain ⟨ends, done, left, same⟩ := account
      rw [List.append_nil] at left
      refine ⟨traced, clear, .inl ⟨ends, rfl, ?_⟩⟩
      dsimp only at same ⊢
      rw [same, ← left, echoed_append_delayed]

theorem Reached.sound (reached : Reached options limits scripts printing) :
    Sound options limits scripts printing := by
  induction reached with
  | initial => exact sound_initial
  | step _ steps ih => exact ih.step steps

/-- A run that is over has written the whole after a normal end, or has failed with what it had written by then. -/
theorem Reached.cases_over {ending : Ending}
    (reached : Reached options limits scripts ⟨trace, output, .ended ending⟩) :
    Merge.Traced limits scripts trace ∧
      ((trace.EndsNormally ∧ ending = .returned 0 ∧ output = written options trace.yielded) ∨
        ∃ error ∈ trace.failures, ending = endingOf output error ∧ output = echoed options trace.yielded) :=
  ⟨reached.sound.traced, reached.sound.account⟩

end Account

section Finishing

theorem finishes_of_writing (left : List Path) : Finishes options limits ⟨trace, output, .writing left⟩ := by
  induction left generalizing output with
  | nil =>
      refine .ahead ⟨_, .finish, .inr (by simp)⟩ ?_
      intro after steps _
      cases steps
      exact .ended
  | cons path left ih =>
      refine .ahead ⟨_, .write, .inr (by simp)⟩ ?_
      intro after steps _
      cases steps
      exact ih

theorem finishes_of_gone (traced : Merge.Traced limits scripts trace) (gone : trace.state.consumer = .gone) :
    Finishes options limits ⟨trace, output, .reading⟩ := by
  have possible : ∃ after, Steps options limits ⟨trace, output, .reading⟩ after ∧
      Changes ⟨trace, output, .reading⟩ after := by
    cases failures : trace.failures with
    | nil => exact ⟨_, .collect gone failures, .inr (by simp)⟩
    | cons error rest =>
        have first : trace.failures.head? = some error := by rw [failures, List.head?_cons]
        exact ⟨_, .fail gone first, .inr (by simp)⟩
  refine .ahead possible ?_
  intro after steps _
  cases steps with
  | merge _ steps => exact absurd steps.moves (traced.framed.not_moves gone)
  | fail => exact .ended
  | collect => exact finishes_of_writing _

theorem finishes_of_inevitable {goal : Merge.Trace Path ScanError → Prop}
    (ends : ∀ {final : Merge.Trace Path ScanError} {output : Text}, goal final →
      Finishes options limits ⟨final, output, .reading⟩)
    (inevitable : Merge.Inevitable limits goal trace) : Finishes options limits ⟨trace, output, .reading⟩ := by
  -- The induction is on how the merge must go on; the other steps end the reading.
  induction inevitable generalizing output with
  | reached met => exact ends met
  | ahead possible _ ih =>
      obtain ⟨event, next, unclosed, steps, changed⟩ := possible
      obtain ⟨more, given⟩ := exists_more steps
      refine .ahead ⟨_, .merge unclosed steps given, .inl changed⟩ ?_
      intro after steps changes
      cases steps with
      | merge unclosed steps given => exact ih _ _ unclosed steps (changes.resolve_right (by simp))
      | fail => exact .ended
      | collect => exact finishes_of_writing _

/-- Wherever the command stands, it comes to be over. -/
theorem Reached.finishes (reached : Reached options limits scripts printing) (workers : 0 < limits.workers)
    (capacity : 0 < limits.capacity) : Finishes options limits printing := by
  obtain ⟨traced, unclosed, -⟩ := reached.sound
  obtain ⟨trace, output, progress⟩ := printing
  cases progress with
  | reading =>
      have inevitable := traced.inevitable_end workers capacity unclosed
      exact finishes_of_inevitable (fun met => finishes_of_gone met.1 met.2.2) inevitable
  | writing left => exact finishes_of_writing left
  | ended => exact .ended

end Finishing

section Collecting

theorem reached_of_traced (traced : Merge.Traced limits scripts trace) (unclosed : ¬ trace.Closed) :
    Reached options limits scripts ⟨trace, echoed options trace.yielded, .reading⟩ := by
  induction traced with
  | initial =>
      have none : echoed options (Merge.Trace.initial scripts).yielded = [] := echoed_nil options
      rw [none]
      exact .initial
  | step _ steps ih =>
      rw [steps.closed_iff, not_or] at unclosed
      obtain ⟨more, given⟩ := exists_more steps
      rw [given, echoed_append]
      exact (ih unclosed.1).step (.merge unclosed.2 steps given)

theorem Reached.write_all {left : List Path}
    (reached : Reached options limits scripts ⟨trace, output, .writing left⟩) :
    Reached options limits scripts ⟨trace, output ++ left.flatMap (lineOf options), .writing []⟩ := by
  induction left generalizing output with
  | nil => rwa [List.flatMap_nil, List.append_nil]
  | cons path left ih =>
      rw [List.flatMap_cons, ← List.append_assoc]
      exact ih (reached.step .write)

/-- A merge that ends normally leads to everything written. -/
theorem reached_of_endsNormally (traced : Merge.Traced limits scripts trace) (ends : trace.EndsNormally) :
    Reached options limits scripts ⟨trace, written options trace.yielded, .ended (.returned 0)⟩ := by
  obtain ⟨gone, unclosed, unfailed⟩ := ends
  have reading : Reached options limits scripts _ := reached_of_traced traced unclosed
  rw [← echoed_append_delayed]
  exact (reading.step (.collect gone unfailed)).write_all.step .finish

end Collecting

end Printing

section Run

variable {environment : Environment} {arguments : List Text} {options : Options} {search : Search}

theorem defaultLimits_pos (groups : List BaseGroup) :
    0 < (defaultLimits groups).workers ∧ 0 < (defaultLimits groups).capacity := by
  have least : 1 ≤ Merge.defaultWorkers groups.length none := Int.le_max_left ..
  have room : 0 < Merge.queueCapacity := by decide
  exact ⟨Int.lt_toNat.mpr (Int.lt_of_lt_of_le Int.zero_lt_one least), room⟩

theorem exists_trace_of_run {limits : Merge.Limits} (workers : 0 < limits.workers) (capacity : 0 < limits.capacity)
    {paths : List Path} {failure : Option ScanError} {log : List LogRecord}
    (ran : search.run limits = (paths, failure, log)) :
    ∃ trace, Merge.Traced limits search.scripts trace ∧ ¬ trace.Closed ∧ trace.state.consumer = .gone ∧
      trace.yielded = paths ∧ trace.failures = failure.toList := by
  rcases collected : search.stream.collect limits with ⟨given, failed, final⟩
  obtain ⟨trace, traced, clear, same, gone, yielded, failures⟩ :=
    Merge.exists_trace_of_collect workers capacity collected
  simp only [Search.run, collected] at ran
  cases ran
  exact ⟨trace, traced, clear, same ▸ gone, yielded, failures⟩

theorem prepared_eq_ok (made : prepared environment arguments = .ok (options, search)) :
    ∃ line found notices, CommandLine.read arguments = .ok line ∧ settings environment = .ok (found, notices) ∧
      options = line.options.merge found line.marked ∧
      Search.ofQuery environment.system options.query (options.level = .trace) = .ok search := by
  revert made
  fun_cases prepared environment arguments with
  | case7 line read _ found notices loaded _ merged asked made =>
      intro same
      obtain ⟨chosen, rfl⟩ := Prod.mk.inj (Except.ok.inj same)
      rw [← chosen]
      exact ⟨line, found, notices, read, loaded, rfl, made⟩
  | _ => exact fun same => nomatch same

/-- Nothing is written when a run that is to search does not come to it. -/
theorem prepared_eq_error {line : CommandLine} {performance : Performance}
    (read : CommandLine.read arguments = .ok line) (plain : line.options.showsVersion = false)
    (ended : prepared environment arguments = .error performance) :
    performance.output = [] ∧
      (performance.ending = .returned 1 ∨ ∃ failure, performance.ending = .raised failure) := by
  revert ended
  fun_cases prepared environment arguments with
  | case1 _ refused => simp [refused] at read
  | case2 other same shows =>
      cases read.symm.trans same
      exact absurd shows (by simp [plain])
  | case7 => exact fun same => nomatch same
  | case5 =>
      intro same
      cases same
      exact ⟨rfl, .inl rfl⟩
  | _ =>
      intro same
      cases same
      exact ⟨rfl, .inr ⟨_, rfl⟩⟩

theorem performanceOf_run : performanceOf (run environment arguments) =
    match prepared environment arguments with
    | .error performance => performance
    | .ok (options, _) => performanceOf (Command.search environment.system options defaultLimits) := by
  have mapped : ∀ {pair}, settings environment = .ok pair →
      (settings environment).mapError Failure.settings = .ok pair := mapError_eq_ok.mpr
  have searching : ∀ {line found notices}, CommandLine.read arguments = .ok line →
      ¬ line.options.showsVersion = true → settings environment = .ok (found, notices) →
      ¬ line.lacksValue found = true → performanceOf (run environment arguments) =
        performanceOf (Command.search environment.system (line.options.merge found line.marked) defaultLimits) := by
    intro line found notices read plain loaded full
    simp only [run, read, if_neg plain, mapped loaded, bind, Except.bind]
    rw [if_neg full]
    cases Command.search environment.system (line.options.merge found line.marked) defaultLimits <;> rfl
  fun_cases prepared environment arguments with
  | case1 _ read => simp [run, read, performanceOf]
  | case2 _ read shows => simp [run, read, shows, performanceOf]
  | case3 _ read plain _ loaded =>
      simp only [run, read, if_neg plain, loaded]
      rfl
  | case4 _ read plain _ _ loaded lacks =>
      simp only [run, read, if_neg plain, mapped loaded, bind, Except.bind]
      rw [if_pos lacks]
      rfl
  | case5 _ read plain _ _ loaded full _ _ _ failed =>
      rw [searching read plain loaded full, Command.search, failed]
      rfl
  | case6 _ read plain _ _ loaded full _ error other failed =>
      rw [searching read plain loaded full, Command.search, failed]
      cases error with
      | malformed pattern reason => exact (other pattern reason rfl).elim
      | reversedMember => rfl
      | tooManyExpansions => rfl
  | case7 _ read plain _ _ loaded full => exact searching read plain loaded full

/-- The command on its own schedule is one of its runs. -/
theorem performs_run (environment : Environment) (arguments : List Text) :
    Performs environment arguments (performanceOf (run environment arguments)) := by
  rw [performanceOf_run]
  split
  · rename_i performance ended
    exact .early ended
  · rename_i options search made
    obtain ⟨-, -, -, -, -, -, asked⟩ := prepared_eq_ok made
    obtain ⟨workers, capacity⟩ := defaultLimits_pos search.groups
    rcases ran : search.run (defaultLimits search.groups) with ⟨paths, failure, log⟩
    obtain ⟨trace, traced, clear, gone, yielded, failures⟩ := exists_trace_of_run workers capacity ran
    simp only [Command.search, asked, ran]
    cases failure with
    | none =>
        have reached := @Printing.reached_of_endsNormally options _ _ _ traced ⟨gone, clear, failures⟩
        rw [yielded] at reached
        exact .searched made reached
    | some failure =>
        have first : trace.failures.head? = some failure := by rw [failures]; rfl
        have reached := (@Printing.reached_of_traced options _ _ _ traced clear).step (.fail gone first)
        rw [yielded, echoed_eq] at reached
        -- The status is 2 when opening a base fails, and any other failure is raised.
        cases failure <;> exact .searched made reached

end Run

end PathSearch.Command
