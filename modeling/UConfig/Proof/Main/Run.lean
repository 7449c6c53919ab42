/-
This file takes a run of the program apart and proves that every run leaves.
-/

import UConfig.Proof.Main.Exit
import UConfig.Proof.Options.Reading
import UConfig.Proof.Process.Stack

namespace UConfig

/-- The program ends with this result when its loops are given enough turns. -/
def Finishes (platform : Platform) (conf : Config) (result : Except Stop Exit) : Prop :=
  ∃ fuel, uconfig fuel platform conf = some result

/-- The settings lead to this report. -/
def Reports (platform : Platform) (conf : Config) (settings : Settings) (report : Report) : Prop :=
  ∃ fuel, runSettings fuel platform conf settings = some report

/-- The report leads to this result. -/
def Leaves (errors : Errors) (report : Report) (result : Except Stop Exit) : Prop :=
  ∃ fuel, report.exit fuel errors = some result

/-- The exit of a run that has neither faulted nor used up its turns. -/
def exitOf : Option (Except Stop Exit) → Option Exit
  | some (.ok exit) => some exit
  | _ => none

/-- A run with an exit has finished. -/
theorem finishes_of_exit {fuel : Nat} {platform : Platform} {conf : Config} {exit : Exit}
    (exits : exitOf (uconfig fuel platform conf) = some exit) :
    Finishes platform conf (.ok exit) := by
  refine ⟨fuel, ?_⟩
  cases returned : uconfig fuel platform conf with
  | none =>
      rw [returned] at exits
      cases exits
  | some result =>
      rw [returned] at exits
      cases result with
      | error stop => cases exits
      | ok other =>
          cases exits
          rfl

open Loop (Grows)

/-- More fuel does not change what is printed. -/
theorem grows_printS8 (out : Output) (s : S8) : Grows fun fuel => out.printS8 fuel s := by
  intro fuel more result enough returned
  dsimp only at returned ⊢
  rw [Output.printS8] at returned ⊢
  split
  case isTrue null => rwa [if_pos null] at returned
  case isFalse notNull =>
    rw [if_neg notNull] at returned
    exact Loop.run_mono enough returned

/-- More fuel does not change a failure. -/
theorem grows_failWith (errors : Errors) (out : Output) (message : S8) :
    Grows fun fuel => failWith fuel errors out message :=
  (grows_printS8 (errors.buffer out) message).bind fun _ => Loop.grows_const _

/-- More fuel does not change how the program leaves. -/
theorem grows_leave (errors : Errors) (halt : Option Halt) (out : Output) :
    Grows fun fuel => leave fuel errors halt out := by
  cases halt with
  | none => exact Loop.grows_const _
  | some halt =>
      cases halt with
      | usage error => exact grows_failWith errors out error.message
      | stop stop =>
          cases stop with
          | fail failure => exact grows_failWith errors out failure.message
          | fault => exact Loop.grows_const _
          | outOfMemory => exact Loop.grows_const _

/-- More fuel does not change an exit. -/
theorem grows_exit (errors : Errors) (report : Report) :
    Grows fun fuel => report.exit fuel errors := by
  refine (grows_printS8 (.newFdBuf 1 4096) report.written).bind fun printed => ?_
  cases printed with
  | error stop => exact Loop.grows_const _
  | ok out => exact grows_leave errors report.halt out

/-- More fuel does not change a report. -/
theorem grows_runSettings (platform : Platform) (conf : Config) (settings : Settings) :
    Grows fun fuel => runSettings fuel platform conf settings := by
  unfold runSettings
  cases settings.listing with
  | all => exact Loop.grows_const _
  | names => exact Loop.grows_const _
  | none =>
      cases parseSpecs settings.args none with
      | error stop => exact Loop.grows_const _
      | ok specs =>
          exact (Loop.grows_run (processBody (settings.processor platform)) (processStart specs)).bind
            fun _ => Loop.grows_const _

/-- More fuel does not change what follows the options. -/
theorem grows_answer (platform : Platform) (conf : Config) (effect : OptionEffect) :
    Grows fun fuel => (match effect with
      | .inr report => report.exit fuel .own
      | .inl settings => do
          let report ← runSettings fuel platform conf settings
          report.exit fuel settings.errors) := by
  cases effect with
  | inr report => exact grows_exit .own report
  | inl settings =>
      exact (grows_runSettings platform conf settings).bind fun report =>
        grows_exit settings.errors report

/-- More fuel does not change how the options are read. -/
theorem grows_readOptions (conf : Config) : Grows fun fuel => readOptions fuel conf :=
  Loop.grows_run (optionBody conf) (optionStart conf)

/-- More fuel does not change a run that has ended. -/
theorem grows_uconfig (platform : Platform) (conf : Config) :
    Grows fun fuel => uconfig fuel platform conf :=
  (grows_readOptions conf).bind (grows_answer platform conf)

/-- A program ends in only one way. -/
theorem Finishes.unique {platform : Platform} {conf : Config} {first second : Except Stop Exit}
    (finishes : Finishes platform conf first) (finishes' : Finishes platform conf second) :
    first = second := by
  obtain ⟨fuel, returned⟩ := finishes
  obtain ⟨other, returned'⟩ := finishes'
  exact (grows_uconfig platform conf).unique returned returned'

/-- A report that leaves with an exit shows on it. -/
theorem Leaves.shows {errors : Errors} {report : Report} {exit : Exit}
    (leaves : Leaves errors report (.ok exit)) : exit.Shows errors report := by
  obtain ⟨fuel, returned⟩ := leaves
  by_cases noFault : report.halt = some (.stop .fault)
  · rw [Report.exit] at returned
    obtain ⟨printed, _, left⟩ := Option.bind_eq_some_iff.mp returned
    cases printed with
    | error stop => cases left
    | ok out =>
        dsimp only at left
        rw [noFault, leave] at left
        cases left
  · obtain ⟨other, exit', returned', shows⟩ := report.exit_shows errors noFault
    cases (grows_exit errors report).unique returned returned'
    exact shows

/-- The program only faults when its report does. -/
theorem leaves_error_iff {errors : Errors} {report : Report} {stop : Stop} :
    Leaves errors report (.error stop) ↔ report.halt = some (.stop .fault) ∧ stop = .fault := by
  constructor
  · rintro ⟨fuel, returned⟩
    by_cases fault : report.halt = some (.stop .fault)
    · obtain ⟨printed, run, left⟩ := Option.bind_eq_some_iff.mp returned
      cases printed with
      | error stop' =>
          obtain ⟨out, run', _⟩ := printed_out.print report.written (Nat.lt_succ_self _)
          cases (grows_printS8 _ _).unique run run'
      | ok out =>
          dsimp only at left
          rw [fault, leave] at left
          cases left
          exact ⟨fault, rfl⟩
    · obtain ⟨other, exit, returned', _⟩ := report.exit_shows errors fault
      cases (grows_exit errors report).unique returned returned'
  · rintro ⟨fault, rfl⟩
    obtain ⟨out, run, _⟩ := printed_out.print report.written (Nat.lt_succ_self _)
    refine ⟨report.written.length + 1, ?_⟩
    rw [Report.exit, run, fault]
    rfl

/-- A report that does not fault leads to an exit that shows it. -/
theorem exists_leaves (errors : Errors) {report : Report}
    (noFault : report.halt ≠ some (.stop .fault)) :
    ∃ exit, Leaves errors report (.ok exit) ∧ exit.Shows errors report := by
  obtain ⟨fuel, exit, returned, shows⟩ := report.exit_shows errors noFault
  exact ⟨exit, ⟨fuel, returned⟩, shows⟩

/-- How a program ends after the options have had this effect. -/
def Concludes (platform : Platform) (conf : Config) (result : Except Stop Exit) :
    OptionEffect → Prop
  | .inr report => Leaves .own report result
  | .inl settings => ∃ report, Reports platform conf settings report ∧
      Leaves settings.errors report result

/-- A command line is read, its settings lead to a report, and the report leaves. -/
theorem finishes_withArgs {platform : Platform} {conf : Config} {args : List S8}
    {items : List Item} (spells : Spells args items) {result : Except Stop Exit} :
    Finishes platform (conf.withArgs args) result ↔
      Concludes platform conf result (followItems conf (startSettings conf) items) := by
  have parts := (grows_readOptions (conf.withArgs args)).exists_bind
    (grows_answer platform (conf.withArgs args)) result
  change Finishes platform (conf.withArgs args) result ↔ _ at parts
  rw [parts]
  simp only [readOptions_iff spells, exists_eq_left]
  cases followItems conf (startSettings conf) items with
  | inr report => exact Iff.rfl
  | inl settings =>
      exact (grows_runSettings platform conf settings).exists_bind
        (fun report => grows_exit settings.errors report) result

/-- What a program finishes with is the exit of some report. -/
theorem Finishes.leaves {platform : Platform} {conf : Config} {result : Except Stop Exit}
    (finishes : Finishes platform conf result) :
    ∃ errors report, Leaves errors report result := by
  obtain ⟨items, spells⟩ := exists_spells conf.args
  have concludes := (finishes_withArgs spells).mp finishes
  cases followed : followItems conf (startSettings conf) items with
  | inr report =>
      rw [followed] at concludes
      exact ⟨.own, report, concludes⟩
  | inl settings =>
      rw [followed] at concludes
      obtain ⟨report, _, leaves⟩ := concludes
      exact ⟨settings.errors, report, leaves⟩

/-- A platform without files. -/
def emptyPlatform : Platform := ⟨fun _ => .notFound, fun _ => []⟩

end UConfig
