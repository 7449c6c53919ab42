/-
This file proves what each ending of the program leaves on the two descriptors.
-/

import UConfig.Program.Main
import UConfig.Proof.Output

namespace UConfig

namespace Output

/-- Everything that has been written so far was written by a full buffer. -/
def Whole (out : Output) : Prop := ∀ payload ∈ out.written, payload.length = out.b.cap

/-- A flush writes what is in the buffer, if there is anything. -/
theorem flush_written (out : Output) {out' : Output} (notMemory : out.b.fd ≠ 0)
    (notNull : out.b.fd ≠ -1) (flushed : out.flush = .ok out') :
    out'.b = { out.b with buf := [] } ∧
      out'.written = if out.b.buf = [] then out.written else out.written ++ [out.b.buf] := by
  rw [flush, if_neg notNull, if_neg notMemory] at flushed
  cases flushed
  refine ⟨rfl, ?_⟩
  dsimp only
  simp only [← List.length_eq_zero_iff, ite_not]

/-- A turn keeps the capacity and the descriptor, and it only writes a full buffer. -/
theorem printBody_whole {s : S8} {out out' : Output} {off off' : Nat} (isOpen : Open out)
    (inside : off < s.length) (turn : printBody s ⟨out, off⟩ = .inl ⟨out', off'⟩)
    (whole : out.Whole) : out'.Whole ∧ out'.b.fd = out.b.fd := by
  rw [printBody_fill inside isOpen.room.le] at turn
  by_cases full : out.b.buf.length + (out.chunk s off).length = out.b.cap
  · rw [if_pos full] at turn
    cases flushed : flush (out.fill (out.chunk s off)) with
    | error stop =>
        rw [flushed] at turn
        cases turn
    | ok flushedOut =>
        rw [flushed] at turn
        cases turn
        obtain ⟨b, written⟩ :=
          flush_written (out.fill (out.chunk s off)) isOpen.notMemory isOpen.notNull flushed
        refine ⟨?_, by rw [b]; rfl⟩
        intro payload member
        rw [b]
        rw [written] at member
        split at member
        case isTrue => exact whole payload member
        case isFalse =>
          rcases List.mem_append.mp member with older | newest
          · exact whole payload older
          · rw [List.mem_singleton.mp newest]
            change (out.b.buf ++ out.chunk s off).length = out.b.cap
            rw [List.length_append, full]
  · rw [if_neg full] at turn
    cases turn
    exact ⟨whole, rfl⟩

/-- The buffer of a descriptor that has only been printed to. -/
structure Printed (out : Output) (fd : Int) (cap : Nat) (text : S8) : Prop where
  isOpen : Open out
  fd : out.b.fd = fd
  cap : out.b.cap = cap
  taken : out.taken = text
  whole : out.Whole

/-- Nothing has been printed to a new buffer. -/
theorem printed_newFdBuf {fd : Int} {cap : Nat} (notMemory : fd ≠ 0) (notNull : fd ≠ -1)
    (room : 0 < cap) : Printed (newFdBuf fd cap) fd cap [] where
  isOpen := ⟨notMemory, notNull, room⟩
  fd := rfl
  cap := rfl
  taken := rfl
  whole := by
    intro payload member
    cases member

/-- The loop prints what is left of the string. -/
theorem Printed.run {fd : Int} {cap : Nat} {s : S8} {fuel : Nat} {out : Output} {off : Nat}
    {text : S8} (printed : Printed out fd cap text) (enough : s.length - off < fuel) :
    ∃ out', Loop.run (printBody s) fuel ⟨out, off⟩ = some (.ok out') ∧
      Printed out' fd cap (text ++ s.drop off) := by
  induction fuel generalizing out off text with
  | zero => exact absurd enough (Nat.not_lt_zero _)
  | succ fuel ih =>
      by_cases inside : off < s.length
      · obtain ⟨next, off', turn, further, same, isOpen, capKept⟩ :=
          printBody_open printed.isOpen inside
        obtain ⟨whole, fdKept⟩ := printBody_whole printed.isOpen inside turn printed.whole
        have taken : Printed next fd cap next.taken :=
          ⟨isOpen, fdKept.trans printed.fd, capKept.trans printed.cap, rfl, whole⟩
        obtain ⟨out', run, printed'⟩ := ih taken (by omega : s.length - off' < fuel)
        rw [same, printed.taken] at printed'
        rw [Loop.run_succ_inl turn]
        exact ⟨out', run, printed'⟩
      · have outside : s.length ≤ off := Nat.not_lt.mp inside
        rw [Loop.run_succ_inr (printBody_end outside), List.drop_eq_nil_of_le outside,
          List.append_nil]
        exact ⟨out, rfl, printed⟩

/-- Printing one string after another is printing both of them at once. -/
theorem Printed.print {out : Output} {fd : Int} {cap : Nat} {text : S8}
    (printed : Printed out fd cap text) (s : S8) {fuel : Nat} (enough : s.length < fuel) :
    ∃ out', out.printS8 fuel s = some (.ok out') ∧ Printed out' fd cap (text ++ s) := by
  rw [printS8, if_neg printed.isOpen.notNull]
  exact printed.run enough

/-- A length and a text leave no choice for the full buffers and the rest. -/
theorem Printed.written_eq {out : Output} {fd : Int} {cap : Nat} {text : S8}
    (printed : Printed out fd cap text) :
    out.written.flatten = text.take (cap * (text.length / cap)) ∧
      out.b.buf = text.drop (cap * (text.length / cap)) := by
  have length : out.written.flatten.length = cap * out.written.length := by
    rw [List.length_flatten, ← printed.cap, Nat.mul_comm]
    have constant : out.written.map List.length =
        List.replicate out.written.length out.b.cap := by
      rw [List.eq_replicate_iff]
      refine ⟨List.length_map .., ?_⟩
      intro size member
      obtain ⟨payload, isPayload, rfl⟩ := List.mem_map.mp member
      exact printed.whole payload isPayload
    rw [constant, List.sum_replicate_nat]
  have whole : text = out.written.flatten ++ out.b.buf := printed.taken.symm
  have room := printed.isOpen.room
  rw [printed.cap] at room
  have count : text.length / cap = out.written.length := by
    rw [whole, List.length_append, length]
    exact Nat.div_eq_of_lt_le (by rw [Nat.mul_comm]; omega)
      (by rw [Nat.add_mul, Nat.mul_comm]; omega)
  rw [count, ← length, whole]
  exact ⟨List.take_left.symm, List.drop_left.symm⟩

/-- A flush at the end writes the rest of the text. -/
theorem Printed.flush {out : Output} {fd : Int} {cap : Nat} {text : S8}
    (printed : Printed out fd cap text) :
    ∃ out', out.flush = .ok out' ∧ out'.written.flatten = text ∧
      ∀ payload ∈ out'.written, payload ≠ [] ∧ payload.length ≤ cap := by
  obtain ⟨out', flushed, taken, b⟩ :=
    out.flush_taken printed.isOpen.notMemory printed.isOpen.notNull
  refine ⟨out', flushed, ?_, ?_⟩
  · rw [← printed.taken, ← taken, Output.taken, b, List.append_nil]
  · obtain ⟨_, written⟩ :=
      flush_written _ printed.isOpen.notMemory printed.isOpen.notNull flushed
    have room := printed.isOpen.room
    rw [printed.cap] at room
    have older : ∀ payload ∈ out.written, payload ≠ [] ∧ payload.length ≤ cap := by
      intro payload member
      have length := (printed.whole payload member).trans printed.cap
      exact ⟨List.ne_nil_of_length_pos (by omega), length.le⟩
    intro payload member
    rw [written] at member
    split at member
    case isTrue => exact older payload member
    case isFalse filled =>
      rcases List.mem_append.mp member with old | newest
      · exact older payload old
      · rw [List.mem_singleton.mp newest]
        exact ⟨filled, room.le⟩

end Output

/-- The text that a halt prints, and a fault prints nothing. -/
def Halt.message : Halt → S8
  | .usage error => error.message
  | .stop (.fail failure) => failure.message
  | .stop .outOfMemory => oom
  | .stop .fault => []

/-- Running out of memory does not go through the buffer for errors. -/
def Halt.errors (errors : Errors) : Halt → Errors
  | .stop .outOfMemory => .own
  | _ => errors

/-- What has been written when the buffer has not been flushed at the end. -/
def flushedPart (text : S8) : S8 := text.take (4096 * (text.length / 4096))

def Report.stdout (errors : Errors) (report : Report) : S8 :=
  match report.halt with
  | none => report.written
  | some halt =>
      match halt.errors errors with
      | .toStdout => report.written ++ halt.message
      | .own | .silent => flushedPart report.written

def Report.stderr (errors : Errors) (report : Report) : S8 :=
  match report.halt with
  | none => []
  | some halt =>
      match halt.errors errors with
      | .own => halt.message
      | .toStdout | .silent => []

/-- The exit shows the report on its two descriptors. -/
structure Exit.Shows (exit : Exit) (errors : Errors) (report : Report) : Prop where
  success : exit.success = report.halt.isNone
  stdout : exit.stdout.flatten = report.stdout errors
  stderr : exit.stderr.flatten = report.stderr errors

/-- The two buffers of the program start empty. -/
theorem printed_out : (Output.newFdBuf 1 4096).Printed 1 4096 [] :=
  Output.printed_newFdBuf (by decide) (by decide) (by decide)

/-- The buffer for errors starts empty as well. -/
theorem printed_err : (Output.newFdBuf 2 128).Printed 2 128 [] :=
  Output.printed_newFdBuf (by decide) (by decide) (by decide)

/-- A message is printed and flushed before the program fails. -/
theorem failWith_eq {fuel : Nat} {errors : Errors} {out err err' : Output} {message : S8}
    (printed : (errors.buffer out).printS8 fuel message = some (.ok err))
    (flushed : err.flush = .ok err') :
    failWith fuel errors out message = some (.ok (errors.exit out err')) := by
  rw [failWith, printed]
  change some (err.flush.bind fun err => pure (errors.exit out err)) = _
  rw [flushed]
  rfl

/-- A failure with a message shows its report. -/
theorem failWith_shows {errors : Errors} {report : Report} {halt : Halt} {out : Output}
    {message : S8} (halted : report.halt = some halt) (isMessage : halt.message = message)
    (sameErrors : halt.errors errors = errors)
    (printed : out.Printed 1 4096 report.written) {fuel : Nat} (enough : message.length < fuel) :
    ∃ exit, failWith fuel errors out message = some (.ok exit) ∧ exit.Shows errors report := by
  have fails : report.halt.isNone = false := by rw [halted]; rfl
  obtain ⟨stdout, _⟩ := printed.written_eq
  cases errors with
  | own =>
      obtain ⟨err, run, printedErr⟩ := printed_err.print message enough
      obtain ⟨err', flushed, text, _⟩ := printedErr.flush
      refine ⟨⟨false, out.written, err'.written⟩, ?_, fails.symm, ?_, ?_⟩
      · exact failWith_eq run flushed
      · simp only [Report.stdout, halted, sameErrors]
        exact stdout
      · simp only [Report.stderr, halted, sameErrors, isMessage]
        exact text
  | toStdout =>
      obtain ⟨err, run, printedErr⟩ := printed.print message enough
      obtain ⟨err', flushed, text, _⟩ := printedErr.flush
      refine ⟨⟨false, err'.written, []⟩, ?_, fails.symm, ?_, ?_⟩
      · exact failWith_eq run flushed
      · simp only [Report.stdout, halted, sameErrors, isMessage]
        exact text
      · simp only [Report.stderr, halted, sameErrors]
        rfl
  | silent =>
      refine ⟨⟨false, out.written, []⟩, ?_, fails.symm, ?_, ?_⟩
      · rfl
      · simp only [Report.stdout, halted, sameErrors]
        exact stdout
      · simp only [Report.stderr, halted, sameErrors]
        rfl

/-- Every way to leave shows the report. -/
theorem leave_shows {errors : Errors} {report : Report} {out : Output}
    (noFault : report.halt ≠ some (.stop .fault)) (printed : out.Printed 1 4096 report.written)
    {fuel : Nat} (enough : ∀ halt, report.halt = some halt → halt.message.length < fuel) :
    ∃ exit, leave fuel errors report.halt out = some (.ok exit) ∧ exit.Shows errors report := by
  cases halted : report.halt with
  | none =>
      obtain ⟨out', flushed, text, _⟩ := printed.flush
      refine ⟨⟨true, out'.written, []⟩, ?_, ?_, ?_, ?_⟩
      · rw [leave, flushed]
        rfl
      · rw [halted]
        rfl
      · simp only [Report.stdout, halted]
        exact text
      · simp only [Report.stderr, halted]
        rfl
  | some halt =>
      have fits := enough halt halted
      rw [halted] at noFault
      cases halt with
      | usage error => exact failWith_shows halted rfl rfl printed fits
      | stop stop =>
          cases stop with
          | fail failure => exact failWith_shows halted rfl rfl printed fits
          | fault => exact absurd rfl noFault
          | outOfMemory =>
              refine ⟨⟨false, out.written, [oom]⟩, rfl, ?_, ?_, ?_⟩
              · rw [halted]
                rfl
              · simp only [Report.stdout, halted, Halt.errors]
                exact printed.written_eq.1
              · simp only [Report.stderr, halted, Halt.errors, Halt.message]
                exact List.flatten_singleton

/-- A report without a fault leaves with what it shows. -/
theorem Report.exit_shows (errors : Errors) (report : Report)
    (noFault : report.halt ≠ some (.stop .fault)) :
    ∃ fuel exit, report.exit fuel errors = some (.ok exit) ∧ exit.Shows errors report := by
  have enough : ∃ size, ∀ halt, report.halt = some halt → halt.message.length < size := by
    cases report.halt with
    | none => exact ⟨0, nofun⟩
    | some halt =>
        refine ⟨halt.message.length + 1, ?_⟩
        rintro other ⟨⟩
        exact Nat.lt_succ_self _
  obtain ⟨size, fits⟩ := enough
  have large : report.written.length < report.written.length + size + 1 := by omega
  obtain ⟨out, run, printed⟩ := printed_out.print report.written large
  rw [List.nil_append] at printed
  have fits' : ∀ halt, report.halt = some halt →
      halt.message.length < report.written.length + size + 1 := by
    intro halt halted
    have small := fits halt halted
    omega
  obtain ⟨exit, left, shows⟩ := leave_shows noFault printed fits'
  refine ⟨report.written.length + size + 1, exit, ?_, shows⟩
  rw [Report.exit, run]
  exact left

end UConfig
