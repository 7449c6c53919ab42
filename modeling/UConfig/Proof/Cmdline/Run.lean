/-
This file proves that the split of a command line ends and what its array holds then.
-/

import UConfig.Proof.Cmdline.Simulation

namespace UConfig

open Unicode

/-- The smallest number of units that an open argument or a closed one waits for. -/
def ArgState.lead (state : ArgState) : Nat := if state = .outside then 1 else 2

theorem lead_outside : ArgState.outside.lead = 1 := rfl

/-- The lead of a state is at most two. -/
theorem lead_le (state : ArgState) : state.lead ≤ 2 := by
  rw [ArgState.lead]
  split <;> omega

/-- Inside of an argument the lead is two. -/
theorem lead_inside {state : ArgState} (inside : state ≠ .outside) : state.lead = 2 := if_neg inside

/-- An argument that starts takes the unit that the last one has left, and any code point gives at
most one unit away. -/
theorem ArgScan.Ok.lead_turn {a : ArgScan} (ok : a.Ok) (c : Nat) :
    2 * (a.turn c).args.length + a.state.lead ≤
      2 * a.args.length + (a.turn c).state.lead +
        if (argMove a.state a.slash c).reread then 0 else 1 := by
  have moved := ok.turn c
  have kind := argMove_kind a.state a.slash c
  rw [moved.args, moved.state]
  generalize argMove a.state a.slash c = move at kind
  cases kind with
  | skips outside => simp [outside, lead_outside]
  | opens outside inside goesOn first => simp [outside, lead_outside, lead_inside inside]; omega
  | closes inside => simp [lead_outside, lead_inside inside]
  | copies inside inside' goesOn counts => simp [lead_inside inside, lead_inside inside']
  | rewinds isSlash base goesOn either =>
      simp [lead_inside (isSlash_inside isSlash), lead_inside (base_inside base).1]
  | rereads inside later base => simp [lead_inside inside, lead_inside (base_inside base).1]

variable {P : PointerSize} {line : CommandLine}

/-- What holds of the machine along the run. -/
structure Along (P : PointerSize) (line : CommandLine) (m : ArgvMachine) (a : ArgScan) : Prop where
  ok : a.Ok
  simulates : Simulates P m a
  positive : 0 < a.args.length
  args : 2 * a.args.length + m.cmd.length ≤ line.units.length + a.state.lead
  text : a.text.length + 3 * m.cmd.length ≤ 3 * line.units.length
  rest : (codePoints m.cmd).foldl ArgScan.step a =
    (codePoints line.units).foldl ArgScan.step .start

/-- The machine starts with the scan. -/
theorem along_start (P : PointerSize) (argv : Memory ArgvCell) (line : CommandLine) :
    Along P line (argvStart P argv line.units) .start where
  ok := ArgScan.ok_start
  simulates := simulates_start P argv line.units
  positive := Nat.one_pos
  args := by
    change 2 * 1 + line.units.length ≤ line.units.length + 2
    omega
  text := by
    change 0 + 3 * line.units.length ≤ 3 * line.units.length
    omega
  rest := rfl

/-- A move writes no more bytes than its units stand for. -/
theorem IsNext.out_bytes {cmd : S16} {next : Decoded UInt16} (isNext : IsNext cmd next)
    (out : ArgOut) : (out.bytes next.rune).length + 3 * next.tail.length ≤ 3 * cmd.length := by
  have shorter := isNext.shorter
  cases out with
  | nothing =>
      simp only [ArgOut.bytes, List.length_nil]
      omega
  | terminator =>
      simp only [ArgOut.bytes, List.length_singleton]
      omega
  | rune => exact isNext.bytes

/-- The pointer to a new argument has a slot in front of the buffer. -/
theorem Along.few {m : ArgvMachine} {a : ArgScan} (along : Along P line m a)
    {next : Decoded UInt16} (found : nextRune m.cmd = some next)
    (starts : (argMove a.state a.slash next.rune).starts = true) : a.args.length < 16384 := by
  have shorter := (nextRune_eq_some found).shorter
  have short := line.short
  have args := along.args
  rw [cmdlineCmdMax] at short
  rw [along.ok.closed.mp ((along.ok.turn next.rune).opens starts), lead_outside] at args
  omega

/-- One turn follows the scan. -/
theorem Along.turn {m : ArgvMachine} {a : ArgScan} (along : Along P line m a)
    {next : Decoded UInt16} (found : nextRune m.cmd = some next) :
    ∃ m', argvBody P m = .inl m' ∧ Along P line m' (a.turn next.rune) ∧
      m'.cmd = (if (argMove a.state a.slash next.rune).reread then m.cmd else next.tail) := by
  have isNext := nextRune_eq_some found
  have moved := along.ok.turn next.rune
  have lead := along.ok.lead_turn next.rune
  have bytes := isNext.out_bytes (argMove a.state a.slash next.rune).out
  have shorter := isNext.shorter
  have short := line.short
  have args := along.args
  have text := along.text
  rw [cmdlineCmdMax] at short
  have fits : (a.turn next.rune).args.length ≤ 16384 := by
    have before := lead_le a.state
    have behind := lead_le (a.turn next.rune).state
    split at lead <;> omega
  obtain ⟨m', applied, simulates, cmd⟩ :=
    along.simulates.apply along.ok next (along.few found) fits (by omega)
  refine ⟨m', by simp only [argvBody, found, applied], ⟨moved.ok, simulates, ?_, ?_, ?_, ?_⟩, cmd⟩
  · have positive := along.positive
    rw [moved.args]
    split <;> omega
  · rw [cmd]
    cases reread : (argMove a.state a.slash next.rune).reread with
    | true =>
        rw [reread, if_pos rfl] at lead
        rw [if_pos rfl]
        omega
    | false =>
        rw [reread, if_neg Bool.false_ne_true] at lead
        rw [if_neg Bool.false_ne_true]
        omega
  · rw [moved.text, cmd, List.length_append, List.length_take_of_le (Nat.sub_le _ _)]
    cases reread : (argMove a.state a.slash next.rune).reread with
    | true =>
        rw [(ArgScan.reread_once reread).1, if_pos rfl]
        simp only [ArgOut.bytes, List.length_nil]
        omega
    | false =>
        rw [if_neg Bool.false_ne_true]
        omega
  · rw [← along.rest, cmd, isNext.codePoints, List.foldl_cons]
    cases reread : (argMove a.state a.slash next.rune).reread with
    | true => rw [if_pos rfl, isNext.codePoints, List.foldl_cons, along.ok.step_reread reread]
    | false => rw [if_neg Bool.false_ne_true, ArgScan.step_read reread]

/-- Every machine of the run follows the scan. -/
theorem along_runs {argv : Memory ArgvCell} {m : ArgvMachine}
    (runs : Loop.Runs (argvBody P) (argvStart P argv line.units) m) : ∃ a, Along P line m a := by
  have preserved : ∀ m m' : ArgvMachine, (∃ a, Along P line m a) → argvBody P m = .inl m' →
      ∃ a, Along P line m' a := by
    intro m m' follows turn
    obtain ⟨a, along⟩ := follows
    cases found : nextRune m.cmd with
    | none =>
        rw [argvBody, found] at turn
        cases turn
    | some next =>
        obtain ⟨after, isTurn, along', _⟩ := along.turn found
        rw [isTurn] at turn
        cases turn
        exact ⟨_, along'⟩
  exact runs.invariant preserved ⟨_, along_start P argv line⟩

/-- A move that does not fault reads on in its own state. -/
theorem apply_eq_some {m m' : ArgvMachine} {next : Decoded UInt16} {move : ArgMove}
    (applied : m.apply P next move = some m') :
    m'.cmd = (if move.reread then m.cmd else next.tail) ∧ m'.state = move.state := by
  obtain ⟨mem, _, applied⟩ := Option.bind_eq_some_iff.mp applied
  obtain ⟨mem', _, same⟩ := Option.bind_eq_some_iff.mp applied
  cases same
  exact ⟨rfl, rfl⟩

/-- These states may read a code point again. -/
def ArgState.pending (state : ArgState) : Nat :=
  if state = .slashUnquoted ∨ state = .slashQuoted ∨ state = .quotedExit then 1 else 0

/-- A turn consumes units, or it goes on to a state that will. -/
theorem argvBody_decreases (m m' : ArgvMachine) (turn : argvBody P m = .inl m') :
    2 * m'.cmd.length + m'.state.pending < 2 * m.cmd.length + m.state.pending := by
  cases found : nextRune m.cmd with
  | none =>
      rw [argvBody, found] at turn
      cases turn
  | some next =>
      have shorter := (nextRune_eq_some found).shorter
      cases applied : m.apply P next (argMove m.state m.slash next.rune) with
      | none =>
          simp only [argvBody, found, applied] at turn
          cases turn
      | some after =>
          simp only [argvBody, found, applied] at turn
          cases turn
          obtain ⟨cmd, state⟩ := apply_eq_some applied
          have atMost : m'.state.pending ≤ 1 := by
            rw [ArgState.pending]
            split <;> omega
          rw [cmd]
          cases reread : (argMove m.state m.slash next.rune).reread with
          | false =>
              rw [if_neg Bool.false_ne_true]
              omega
          | true =>
              obtain ⟨_, _, _, later, base⟩ :=
                ArgScan.reread_once (a := ⟨m.state, m.slash, [], none⟩) reread
              have before : m.state.pending = 1 := by
                rw [ArgState.pending, if_pos (or_assoc.mp later)]
              have behind : m'.state.pending = 0 := by
                rw [state, ArgState.pending]
                dsimp only at base
                rcases base with same | same <;> rw [same, if_neg (by decide)]
              rw [if_pos rfl, before, behind]
              omega

/-- The split ends behind the whole command line, with the arguments of the scan. -/
theorem argv_ends (P : PointerSize) (argv : Memory ArgvCell) (line : CommandLine) : ∃ last a,
    Loop.Ends (argvBody P) (argvStart P argv line.units) (last.finish P) ∧ Along P line last a ∧
      last.cmd = [] ∧ a.args = producedArgs line.units := by
  obtain ⟨result, last, runs, leaves⟩ := Loop.exists_ends
    (fun m : ArgvMachine => 2 * m.cmd.length + m.state.pending) argvBody_decreases
    (argvStart P argv line.units)
  obtain ⟨a, along⟩ := along_runs runs
  cases found : nextRune last.cmd with
  | some next =>
      obtain ⟨m', turn, _⟩ := along.turn found
      rw [turn] at leaves
      cases leaves
  | none =>
      have empty := nextRune_eq_none found
      refine ⟨last, a, ⟨last, runs, ?_⟩, along, empty, ?_⟩
      · rw [argvBody, found]
      · rw [producedArgs, ← along.rest, empty]
        rfl

/-- Each pointer leads to the bytes of its argument, and a null pointer follows. -/
structure HoldsArgs (P : PointerSize) (result : ArgvResult) (args : List S8) : Prop where
  argc : result.argc = args.length
  pointers : ∀ index (inside : index < args.length), ∃ base,
    PointsTo P result.argv index (some base) ∧ BytesAt result.argv base (args[index] ++ [0])
  null : PointsTo P result.argv args.length none

/-- The terminated arguments are the text with its terminator. -/
theorem ArgScan.args_text (a : ArgScan) : ∃ rest, a.text ++ [0] = a.args.flatMap (· ++ [0]) ++ rest := by
  rw [text, args, List.flatMap_append]
  cases a.cur with
  | none => exact ⟨[0], by simp⟩
  | some s => exact ⟨[], by simp⟩

/-- An argument stands at its place in the text of all arguments. -/
theorem bytesAt_arg {mem : Memory ArgvCell} {base : Int} {args : List S8}
    (bytes : BytesAt mem base (args.flatMap (· ++ [0]))) {index : Nat}
    (inside : index < args.length) :
    BytesAt mem (base + argOffset args index) (args[index] ++ [0]) := by
  have split : args.flatMap (· ++ [0]) = (args.take index).flatMap (· ++ [0]) ++
      ((args[index] ++ [0]) ++ (args.drop (index + 1)).flatMap (· ++ [0])) := by
    conv_lhs => rw [← List.take_append_drop index args, List.drop_eq_getElem_cons inside]
    rw [List.flatMap_append, List.flatMap_cons]
  rw [split, BytesAt, byteCells_append, Memory.holds_append, length_byteCells, byteCells_append,
    Memory.holds_append] at bytes
  exact bytes.2.1

/-- The array of the end, where the null pointer may stand in the buffer. -/
def ArgvMachine.ended (P : PointerSize) (m : ArgvMachine) : Memory ArgvCell :=
  (m.mem.write m.buf (byteCells [0])).write (m.argc * P.bytes : Nat) (P.cells none)

/-- The last writes of the program stay in the array. -/
theorem Along.finish_eq {m : ArgvMachine} {a : ArgScan} (along : Along P line m a)
    (atMost : a.args.length ≤ 16384) : m.finish P = some ⟨a.args.length, m.ended P⟩ := by
  have inside := P.array_room
  have short := line.short
  have length := along.text
  rw [cmdlineCmdMax] at short
  have text : P.storeBytes m.mem m.buf [0] = some (m.mem.write m.buf (byteCells [0])) := by
    apply Memory.store_eq_some
    rw [along.simulates.buf, length_byteCells, List.length_singleton]
    omega
  have null : P.storePointer (m.mem.write m.buf (byteCells [0])) m.argc none =
      some (m.ended P) := by
    apply Memory.store_eq_some
    have slot := P.slot_inside atMost
    rw [PointerSize.length_cells, along.simulates.argc]
    omega
  rw [← along.simulates.argc]
  simp only [ArgvMachine.finish, text, null, Option.bind_eq_bind, Option.bind_some]
  rfl

/-- When there is a slot for the null pointer, the array holds all arguments in the end. -/
theorem Along.finish {m : ArgvMachine} {a : ArgScan} (along : Along P line m a)
    (below : a.args.length < 16384) : HoldsArgs P ⟨a.args.length, m.ended P⟩ a.args := by
  obtain ⟨_, _, argc, buf, text, slots⟩ := along.simulates
  have slot := slot_below P below
  refine ⟨rfl, ?_, argc ▸ Memory.holds_write _ _ _⟩
  intro index isArg
  refine ⟨P.bufferStart + argOffset a.args index, ?_, ?_⟩
  · have known := slots index isArg
    have early : argOffset a.args index = argOffset a.done index := by
      have finished : index ≤ a.done.length :=
        Nat.le_of_lt_succ (isArg.trans_le (length_args_le a))
      rw [argOffset, argOffset, ArgScan.args, List.take_append_of_le_length finished]
    rw [early]
    apply Memory.Holds.write (Memory.Holds.write known _)
    · rw [PointerSize.length_cells, PointerSize.length_cells, argc]
      exact .inl (slots_apart P isArg)
    · have before := slot_below P (isArg.trans below)
      rw [PointerSize.length_cells, buf]
      omega
  · apply bytesAt_arg
    obtain ⟨rest, same⟩ := a.args_text
    have extended := Memory.Holds.extend text (byteCells [0])
    rw [length_byteCells, ← buf, ← byteCells_append, same, byteCells_append,
      Memory.holds_append] at extended
    apply Memory.Holds.write extended.1
    rw [PointerSize.length_cells, argc]
    exact .inr slot

/-- There are never more arguments than slots in front of the buffer. -/
theorem length_producedArgs (P : PointerSize) (line : CommandLine) :
    (producedArgs line.units).length ≤ 16384 := by
  obtain ⟨last, a, _, along, empty, args⟩ := argv_ends P (fun _ => .byte 0) line
  have count := along.args
  have short := line.short
  rw [cmdlineCmdMax] at short
  have lead := lead_le a.state
  rw [args, empty, List.length_nil] at count
  omega

/-- The split returns the number of arguments and stores a null pointer behind their pointers. -/
theorem argv_returns (P : PointerSize) (argv : Memory ArgvCell) (line : CommandLine) : ∃ result,
    CmdlineToArgv8 P argv line.units result ∧
      result.argc = (producedArgs line.units).length ∧ PointsTo P result.argv result.argc none ∧
      (result.argc < 16384 → HoldsArgs P result (producedArgs line.units)) := by
  obtain ⟨last, a, ends, along, _, args⟩ := argv_ends P argv line
  have atMost := length_producedArgs P line
  rw [← args] at atMost ⊢
  rw [along.finish_eq atMost] at ends
  refine ⟨_, ends, rfl, ?_, along.finish⟩
  exact along.simulates.argc ▸ Memory.holds_write _ _ _

end UConfig
