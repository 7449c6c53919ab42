/-
This file proves that the array of the program holds the arguments of the scan.
-/

import UConfig.Proof.Cmdline.Scan

namespace UConfig

open Unicode

/-- The code tells high surrogates by their upper bits. -/
theorem highSurrogate_iff (unit : UInt16) : unit.toNat >>> 10 = 0x36 ↔ isHighSurrogate unit = true := by
  rw [isHighSurrogate, Bool.and_eq_true, decide_eq_true_iff, decide_eq_true_iff,
    Nat.shiftRight_eq_div_pow]
  omega

/-- The code tells low surrogates by their upper bits. -/
theorem lowSurrogate_iff (unit : UInt16) : unit.toNat >>> 10 = 0x37 ↔ isLowSurrogate unit = true := by
  rw [isLowSurrogate, Bool.and_eq_true, decide_eq_true_iff, decide_eq_true_iff,
    Nat.shiftRight_eq_div_pow]
  omega

/-- The next code point is the first one of the command line, and it takes up its units. -/
structure IsNext (cmd : S16) (next : Decoded UInt16) : Prop where
  codePoints : codePoints cmd = next.rune :: codePoints next.tail
  shorter : next.tail.length < cmd.length
  bytes : (encodeRune next.rune).length + 3 * next.tail.length ≤ 3 * cmd.length

/-- What is found is the next rune of the command. -/
theorem nextRune_eq_some {cmd : S16} {next : Decoded UInt16} (found : nextRune cmd = some next) :
    IsNext cmd next := by
  match cmd with
  | [] => cases found
  | [unit] =>
      cases found
      have short := encodeRune_short unit.toNat_lt
      exact ⟨rfl, Nat.lt_succ_self _, by simpa using short⟩
  | first :: second :: rest =>
      rw [nextRune] at found
      split at found
      case isTrue pair =>
        cases found
        rw [highSurrogate_iff, lowSurrogate_iff] at pair
        have short := (encodeRune_length
          (0x10000 + ((first.toNat - 0xd800) <<< 10) + (second.toNat - 0xdc00))).2
        have value : 0x10000 + ((first.toNat - 0xd800) <<< 10) + (second.toNat - 0xdc00) =
            pairValue first second := by
          have shift : (first.toNat - 0xd800) <<< 10 = (first.toNat - 0xd800) * 0x400 :=
            Nat.shiftLeft_eq _ _
          unfold pairValue
          rw [shift]
        have both : (isHighSurrogate first && isLowSurrogate second) = true := by
          rw [pair.1, pair.2, Bool.and_self]
        refine ⟨?_, by simp only [List.length_cons]; omega, ?_⟩
        · rw [value, codePoints, if_pos both]
        · simp only [List.length_cons]
          omega
      case isFalse single =>
        cases found
        rw [highSurrogate_iff, lowSurrogate_iff] at single
        have short := encodeRune_short first.toNat_lt
        refine ⟨?_, Nat.lt_succ_self _, ?_⟩
        · rw [codePoints, if_neg (by simpa using single)]
        · simp only [List.length_cons]
          omega

/-- Only the end of the command has no next rune. -/
theorem nextRune_eq_none {cmd : S16} (ended : nextRune cmd = none) : cmd = [] := by
  match cmd with
  | [] => rfl
  | [unit] => cases ended
  | first :: second :: rest =>
      rw [nextRune] at ended
      split at ended <;> cases ended

variable {P : PointerSize}

/-- The array has room for all pointers in front of the buffer, and for the longest text in it. -/
theorem PointerSize.array_room (P : PointerSize) :
    P.bufferStart + 98299 ≤ (P.arraySize : Int) ∧ P.bufferStart = (16384 * P.bytes : Nat) := by
  have positive := P.positive
  have division := Nat.div_add_mod (98298 + P.bytes) P.bytes
  have remainder := Nat.mod_lt (98298 + P.bytes) positive
  have size : P.arraySize = P.bytes * 16384 + P.bytes * ((98298 + P.bytes) / P.bytes) := by
    rw [PointerSize.arraySize, PointerSize.argvMax, Nat.mul_add]
  refine ⟨?_, rfl⟩
  rw [size, PointerSize.bufferStart]
  omega

/-- The first slot of the buffer is a slot of the array, too. -/
theorem PointerSize.slot_inside (P : PointerSize) {index : Nat} (atMost : index ≤ 16384) :
    index * P.bytes + P.bytes ≤ P.arraySize := by
  have one : 1 ≤ (98298 + P.bytes) / P.bytes :=
    (Nat.one_le_div_iff P.positive).mpr (Nat.le_add_left _ _)
  have slots : index + 1 ≤ P.argvMax := by
    rw [PointerSize.argvMax]
    omega
  rw [← Nat.succ_mul, PointerSize.arraySize, Nat.mul_comm]
  exact Nat.mul_le_mul_left _ slots

/-- A pointer takes as many cells as its size has bytes. -/
@[simp] theorem PointerSize.length_cells (P : PointerSize) (target : Option Int) :
    (P.cells target).length = P.bytes := by
  rw [PointerSize.cells, List.length_map, List.length_range]

/-- A byte takes one cell. -/
@[simp] theorem length_byteCells (s : S8) : (byteCells s).length = s.length := List.length_map ..

/-- The cells of a text are those of its parts. -/
theorem byteCells_append (s t : S8) : byteCells (s ++ t) = byteCells s ++ byteCells t :=
  List.map_append ..

/-- The array element with this index is a pointer to this target. -/
def PointsTo (P : PointerSize) (mem : Memory ArgvCell) (index : Nat) (target : Option Int) : Prop :=
  mem.Holds (index * P.bytes : Nat) (P.cells target)

/-- The bytes stand in the array. -/
def BytesAt (mem : Memory ArgvCell) (base : Int) (s : S8) : Prop := mem.Holds base (byteCells s)

/-- A slot in front of the buffer ends where the next one starts. -/
theorem slot_below (P : PointerSize) {index : Nat} (below : index < 16384) :
    ((index * P.bytes : Nat) : Int) + P.bytes ≤ P.bufferStart := by
  have next : (index + 1) * P.bytes ≤ 16384 * P.bytes := Nat.mul_le_mul_right _ below
  rw [Nat.add_mul, Nat.one_mul] at next
  rw [PointerSize.bufferStart]
  omega

/-- The entries of the array do not overlap. -/
theorem slots_apart (P : PointerSize) {index other : Nat} (less : index < other) :
    ((index * P.bytes : Nat) : Int) + P.bytes ≤ (other * P.bytes : Nat) := by
  have next : (index + 1) * P.bytes ≤ other * P.bytes := Nat.mul_le_mul_right _ less
  rw [Nat.add_mul, Nat.one_mul] at next
  omega

/-- The place of an argument in the text. -/
def argOffset (done : List S8) (index : Nat) : Nat :=
  ((done.take index).flatMap (· ++ [0])).length

/-- The machine has written the arguments of the scan. -/
structure Simulates (P : PointerSize) (m : ArgvMachine) (a : ArgScan) : Prop where
  state : m.state = a.state
  slash : m.slash = a.slash
  argc : m.argc = a.args.length
  buf : m.buf = P.bufferStart + a.text.length
  text : BytesAt m.mem P.bufferStart a.text
  slots : ∀ index < a.args.length,
    PointsTo P m.mem index (some (P.bufferStart + argOffset a.done index))

/-- The machine and the scan start together. -/
theorem simulates_start (P : PointerSize) (argv : Memory ArgvCell) (cmd : S16) :
    Simulates P (argvStart P argv cmd) .start where
  state := rfl
  slash := rfl
  argc := rfl
  buf := by simp [argvStart, ArgScan.start, ArgScan.text]
  text := Memory.holds_nil _ _
  slots index inside := by
    obtain rfl : index = 0 := by simpa [ArgScan.start, ArgScan.args] using inside
    have written := Memory.holds_write argv 0 (P.cells (some P.bufferStart))
    simpa [PointsTo, argvStart, argOffset] using written

/-- A first part of the bytes stands at the same place. -/
theorem BytesAt.take {mem : Memory ArgvCell} {base : Int} {s : S8} (bytes : BytesAt mem base s)
    (count : Nat) : BytesAt mem base (s.take count) := by
  have split := bytes
  rw [← List.take_append_drop count s, BytesAt, byteCells_append, Memory.holds_append] at split
  exact split.1

/-- The arguments are those that are done and the current one. -/
theorem length_args (a : ArgScan) : a.args.length = a.done.length + a.cur.toList.length :=
  List.length_append

/-- There is at most one current argument. -/
theorem length_args_le (a : ArgScan) : a.args.length ≤ a.done.length + 1 := by
  rw [length_args]
  cases a.cur <;> simp

/-- A move takes back no more bytes than have been written. -/
theorem Moved.retreat_le {a next : ArgScan} {c : Nat} {move : ArgMove}
    (moved : ArgScan.Moved a next c move) : move.retreat ≤ a.text.length := by
  cases cur : a.cur with
  | none =>
      rw [moved.still cur]
      exact Nat.zero_le _
  | some s =>
      rw [ArgScan.text, List.length_append, cur, Option.getD_some]
      exact (moved.retreat s cur).trans (Nat.le_add_left _ _)

/-- The finished arguments keep their places. -/
theorem Moved.argOffset_eq {a next : ArgScan} {c : Nat} {move : ArgMove}
    (moved : ArgScan.Moved a next c move) {index : Nat} (inside : index ≤ a.done.length) :
    argOffset next.done index = argOffset a.done index := by
  have same : next.done.take index = a.done.take index := by
    conv_rhs => rw [← moved.done, List.take_take, Nat.min_eq_left inside]
  rw [argOffset, argOffset, same]

/-- The pointer to a new argument is stored behind the other pointers. -/
theorem Simulates.storePointer {m : ArgvMachine} {a : ArgScan} (sim : Simulates P m a)
    (below : a.args.length < 16384) (target : Option Int) : ∃ mem,
    P.storePointer m.mem m.argc target = some mem ∧ BytesAt mem P.bufferStart a.text ∧
      PointsTo P mem a.args.length target ∧
      ∀ index < a.args.length, PointsTo P mem index (some (P.bufferStart + argOffset a.done index)) := by
  have slot := slot_below P below
  have room := P.array_room
  refine ⟨m.mem.write (a.args.length * P.bytes : Nat) (P.cells target), ?_, ?_, ?_, ?_⟩
  · rw [PointerSize.storePointer, sim.argc]
    apply Memory.store_eq_some
    rw [PointerSize.length_cells]
    omega
  · apply Memory.Holds.write sim.text
    rw [PointerSize.length_cells]
    exact .inr slot
  · exact Memory.holds_write _ _ _
  · intro index inside
    apply Memory.Holds.write (sim.slots index inside)
    rw [PointerSize.length_cells]
    exact .inl (slots_apart P inside)

/-- After a move has stored the pointer to a new argument, all arguments have their pointers. -/
theorem Simulates.storeStart {m : ArgvMachine} {a next : ArgScan} (sim : Simulates P m a) {c : Nat}
    {move : ArgMove} (moved : ArgScan.Moved a next c move)
    (few : move.starts = true → a.args.length < 16384) : ∃ mem,
    m.storeStart P move.starts = some mem ∧
    BytesAt mem P.bufferStart a.text ∧ ∀ index < next.args.length,
      PointsTo P mem index (some (P.bufferStart + argOffset next.done index)) := by
  have known : ∀ index < a.args.length, argOffset next.done index = argOffset a.done index :=
    fun index inside =>
      Moved.argOffset_eq moved (Nat.le_of_lt_succ (inside.trans_le (length_args_le a)))
  cases starts : move.starts with
  | false =>
      refine ⟨m.mem, rfl, sim.text, ?_⟩
      intro index inside
      rw [moved.args, starts, if_neg Bool.false_ne_true] at inside
      rw [known index inside]
      exact sim.slots index inside
  | true =>
      obtain ⟨mem, stored, text, new, old⟩ := sim.storePointer (few starts) (some m.buf)
      refine ⟨mem, stored, text, ?_⟩
      intro index inside
      rw [moved.args, starts, if_pos rfl] at inside
      by_cases before : index < a.args.length
      · rw [known index before]
        exact old index before
      · obtain rfl : index = a.args.length := by omega
        have isClosed := moved.opens starts
        have count : a.args.length = a.done.length := by
          rw [length_args, isClosed]
          rfl
        have offset : (argOffset next.done a.args.length : Int) = a.text.length := by
          rw [Moved.argOffset_eq moved count.le, count, argOffset, List.take_length,
            ArgScan.text, isClosed, Option.getD_none, List.append_nil]
        rw [offset, ← sim.buf]
        exact new

/-- A move of the program writes what the move of the scan appends. -/
theorem Simulates.apply {m : ArgvMachine} {a : ArgScan} (sim : Simulates P m a) (ok : a.Ok)
    (next : Decoded UInt16)
    (few : (argMove a.state a.slash next.rune).starts = true → a.args.length < 16384)
    (fits : (a.turn next.rune).args.length ≤ 16384)
    (room : a.text.length + ((argMove a.state a.slash next.rune).out.bytes next.rune).length ≤ 98299) :
    ∃ m', m.apply P next (argMove m.state m.slash next.rune) = some m' ∧
      Simulates P m' (a.turn next.rune) ∧
      m'.cmd = if (argMove a.state a.slash next.rune).reread then m.cmd else next.tail := by
  have moved := ok.turn next.rune
  have retreat := Moved.retreat_le moved
  rw [sim.state, sim.slash]
  generalize argMove a.state a.slash next.rune = move at moved retreat few room
  obtain ⟨mem, stored, text, slots⟩ := sim.storeStart moved few
  have inside := P.array_room
  have kept : ((a.text.take (a.text.length - move.retreat)).length : Int) =
      a.text.length - move.retreat := by
    rw [List.length_take_of_le (Nat.sub_le _ _)]
    omega
  have buf : m.buf - move.retreat =
      P.bufferStart + (a.text.take (a.text.length - move.retreat)).length := by
    rw [sim.buf, kept]
    omega
  have written : P.storeBytes mem (m.buf - move.retreat) (move.out.bytes next.rune) =
      some (mem.write (m.buf - move.retreat) (byteCells (move.out.bytes next.rune))) := by
    apply Memory.store_eq_some
    rw [buf, kept, length_byteCells]
    omega
  have applied : m.apply P next move = some {
      cmd := if move.reread then m.cmd else next.tail
      argc := if move.starts then m.argc + 1 else m.argc
      state := move.state
      slash := move.slash
      buf := m.buf - move.retreat + (move.out.bytes next.rune).length
      mem := mem.write (m.buf - move.retreat) (byteCells (move.out.bytes next.rune)) } := by
    simp only [ArgvMachine.apply, stored, Option.bind_eq_bind, Option.bind_some, written]
    rfl
  refine ⟨_, applied, ?_, rfl⟩
  · constructor
    · exact moved.state.symm
    · exact moved.slash.symm
    · rw [moved.args]
      simp only [sim.argc]
    · dsimp only
      rw [buf, moved.text, List.length_append, Int.natCast_add, Int.add_assoc]
    · have start := text.take (a.text.length - move.retreat)
      have extended := Memory.Holds.extend start (byteCells (move.out.bytes next.rune))
      rw [length_byteCells, ← buf, ← byteCells_append, ← moved.text] at extended
      exact extended
    · intro index isArg
      apply Memory.Holds.write (slots index isArg)
      have below := slot_below P (isArg.trans_le fits)
      rw [PointerSize.length_cells, buf]
      exact .inl (below.trans (le_add_of_nonneg_right (Int.natCast_nonneg _)))

end UConfig
