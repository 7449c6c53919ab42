/-
This file proves what the exit status of a run says about its output and its messages.
-/

import UConfig.Proof.Main.Returns

namespace UConfig

/-- What a failed run leaves of its answer and of its message, by the place of its messages. -/
def Exit.Fails (exit : Exit) (written message : S8) : Errors → Prop
  | .own => exit.stdout.flatten = flushedPart written ∧ exit.stderr.flatten = message
  | .toStdout => exit.stdout.flatten = written ++ message ∧ exit.stderr.flatten = []
  | .silent => exit.stdout.flatten = flushedPart written ∧ exit.stderr.flatten = []

/-- What an exit shows of a halt is what a failed run leaves. -/
theorem Exit.Shows.fails {exit : Exit} {errors : Errors} {report : Report} {halt : Halt}
    (shows : exit.Shows errors report) (halted : report.halt = some halt) :
    exit.Fails report.written halt.message (halt.errors errors) := by
  have stdout := shows.stdout
  have stderr := shows.stderr
  simp only [Report.stdout, Report.stderr, halted] at stdout stderr
  cases way : halt.errors errors with
  | own | toStdout | silent =>
      rw [way] at stdout stderr
      exact ⟨stdout, stderr⟩

/-- A run that leaves has not faulted. -/
theorem Leaves.noFault {errors : Errors} {report : Report} {exit : Exit}
    (leaves : Leaves errors report (.ok exit)) : report.halt ≠ some (.stop .fault) := by
  intro faults
  obtain ⟨fuel, returned⟩ := leaves
  obtain ⟨other, returned'⟩ : Leaves errors report (.error .fault) :=
    leaves_error_iff.mpr ⟨faults, rfl⟩
  cases (grows_exit errors report).unique returned returned'

/-- What a run leaves behind, by the answer that it has written and the halt that ended it. -/
def Exit.Keeps (exit : Exit) (errors : Errors) (report : Report) : Prop :=
  match report.halt with
  | none => exit.success = true ∧ exit.stdout.flatten = report.written ∧ exit.stderr.flatten = []
  | some halt => halt ≠ .stop .fault ∧ exit.success = false ∧
      exit.Fails report.written halt.message (halt.errors errors)

/-- Every run that leaves keeps what its report says. -/
theorem Leaves.keeps {errors : Errors} {report : Report} {exit : Exit}
    (leaves : Leaves errors report (.ok exit)) : exit.Keeps errors report := by
  have shows := leaves.shows
  have noFault := leaves.noFault
  rw [Exit.Keeps]
  cases halted : report.halt with
  | none =>
      refine ⟨by rw [shows.success, halted]; rfl, ?_, ?_⟩
      · rw [shows.stdout, Report.stdout, halted]
      · rw [shows.stderr, Report.stderr, halted]
  | some halt =>
      rw [halted] at noFault
      exact ⟨fun same => noFault (congrArg some same), by rw [shows.success, halted]; rfl,
        shows.fails halted⟩

/-- A run that succeeds has no message. -/
theorem Leaves.quiet {errors : Errors} {report : Report} {exit : Exit}
    (leaves : Leaves errors report (.ok exit)) (succeeds : exit.success = true) :
    exit.stderr.flatten = [] := by
  have keeps := leaves.keeps
  rw [Exit.Keeps] at keeps
  split at keeps
  case h_1 => exact keeps.2.2
  case h_2 =>
    rw [keeps.2.1] at succeeds
    cases succeeds

end UConfig
