/-
This file proves that a buffer loses none of the bytes that are printed to it.
-/

import UConfig.Program.Output

namespace UConfig

namespace Output

inductive Call where
  | printS8 (s : S8)
  | printU8 (c : UInt8)
  | flush

/-- The bytes that a call prints. -/
def Call.bytes : Call → S8
  | printS8 s => s
  | printU8 c => [c]
  | flush => []

def Call.run (fuel : Nat) (out : Output) : Call → Option (Except Stop Output)
  | printS8 s => out.printS8 fuel s
  | printU8 c => out.printU8 fuel c
  | flush => some out.flush

/-- The calls are made one after the other until one of them ends the program. -/
def runCalls (fuel : Nat) (out : Output) : List Call → Option (Except Stop Output)
  | [] => some (.ok out)
  | call :: calls =>
      match call.run fuel out with
      | some (.ok out) => runCalls fuel out calls
      | stopped => stopped

/-- The buffer with some more bytes. -/
def fill (out : Output) (bytes : S8) : Output :=
  { out with b := { out.b with buf := out.b.buf ++ bytes } }

/-- The bytes that one turn copies into the buffer. -/
def chunk (out : Output) (s : S8) (off : Nat) : S8 :=
  (s.drop off).take (min (out.b.cap - out.b.buf.length) (s.length - off))

/-- A chunk takes what fits of what is left. -/
theorem length_chunk (out : Output) (s : S8) (off : Nat) :
    (out.chunk s off).length = min (out.b.cap - out.b.buf.length) (s.length - off) := by
  rw [chunk, List.length_take, List.length_drop]
  omega

/-- The chunk and the rest are what was left before. -/
theorem chunk_append (out : Output) (s : S8) (off : Nat) :
    out.chunk s off ++ s.drop (off + (out.chunk s off).length) = s.drop off := by
  rw [length_chunk, chunk, ← List.drop_drop, List.take_append_drop]

/-- A turn fills the buffer as far as it can, and a full buffer is flushed. -/
theorem printBody_fill {s : S8} {out : Output} {off : Nat} (inside : off < s.length)
    (fits : out.b.buf.length ≤ out.b.cap) :
    printBody s ⟨out, off⟩ =
      if out.b.buf.length + (out.chunk s off).length = out.b.cap then
        match flush (out.fill (out.chunk s off)) with
        | .error stop => .inr (.error stop)
        | .ok out' => .inl ⟨out', off + (out.chunk s off).length⟩
      else .inl ⟨out.fill (out.chunk s off), off + (out.chunk s off).length⟩ := by
  have count : (if (out.b.cap : Int) - out.b.buf.length < s.length - off
      then (out.b.cap : Int) - out.b.buf.length else s.length - off) =
      ((out.chunk s off).length : Nat) := by
    rw [length_chunk]
    split <;> omega
  rw [printBody, if_pos inside]
  dsimp only
  rw [count, if_neg (by omega), Int.toNat_natCast]
  have copied : (s.drop off).take (out.chunk s off).length = out.chunk s off := by
    rw [length_chunk]
    rfl
  rw [copied, List.length_append]
  rfl

/-- Nothing is left to print behind the string. -/
theorem printBody_end {s : S8} {out : Output} {off : Nat} (outside : s.length ≤ off) :
    printBody s ⟨out, off⟩ = .inr (.ok out) := by
  rw [printBody, if_neg (Nat.not_lt.mpr outside)]

/-- Everything that a buffer has taken, written or not. -/
def taken (out : Output) : S8 := out.written.flatten ++ out.b.buf

/-- What is filled in has been taken. -/
theorem fill_taken (out : Output) (bytes : S8) : (out.fill bytes).taken = out.taken ++ bytes :=
  (List.append_assoc _ _ _).symm

/-- The buffer of a descriptor with room for another byte. -/
structure Open (out : Output) : Prop where
  notMemory : out.b.fd ≠ 0
  notNull : out.b.fd ≠ -1
  room : out.b.buf.length < out.b.cap

/-- A flush writes the buffer and leaves it empty. -/
theorem flush_taken (out : Output) (notMemory : out.b.fd ≠ 0) (notNull : out.b.fd ≠ -1) :
    ∃ out', out.flush = .ok out' ∧ out'.taken = out.taken ∧
      out'.b = { out.b with buf := [] } := by
  rw [flush, if_neg notNull, if_neg notMemory]
  refine ⟨_, rfl, ?_, rfl⟩
  dsimp only [taken]
  split
  case isTrue => simp
  case isFalse empty =>
    have nothing : out.b.buf = [] := List.length_eq_zero_iff.mp (not_not.mp empty)
    rw [nothing]

/-- A turn takes at least one byte and leaves room for another one. -/
theorem printBody_open {s : S8} {out : Output} {off : Nat} (isOpen : Open out)
    (inside : off < s.length) :
    ∃ out' off', printBody s ⟨out, off⟩ = .inl ⟨out', off'⟩ ∧ off < off' ∧
      out'.taken ++ s.drop off' = out.taken ++ s.drop off ∧ Open out' ∧ out'.b.cap = out.b.cap := by
  have positive : 0 < (out.chunk s off).length := by
    have room := isOpen.room
    rw [length_chunk]
    omega
  have rest : (out.fill (out.chunk s off)).taken ++ s.drop (off + (out.chunk s off).length) =
      out.taken ++ s.drop off := by
    rw [fill_taken, List.append_assoc, chunk_append]
  rw [printBody_fill inside isOpen.room.le]
  by_cases full : out.b.buf.length + (out.chunk s off).length = out.b.cap
  · obtain ⟨out', flushed, taken, b⟩ :=
      (out.fill (out.chunk s off)).flush_taken isOpen.notMemory isOpen.notNull
    rw [if_pos full, flushed]
    have isOpen' : Open out' := by
      constructor <;> rw [b]
      · exact isOpen.notMemory
      · exact isOpen.notNull
      · exact Nat.zero_lt_of_lt isOpen.room
    exact ⟨out', _, rfl, by omega, by rw [taken, rest], isOpen', by rw [b]; rfl⟩
  · rw [if_neg full]
    have room : (out.b.buf ++ out.chunk s off).length < out.b.cap := by
      have fits := length_chunk out s off
      rw [List.length_append]
      omega
    exact ⟨_, _, rfl, by omega, rest, ⟨isOpen.notMemory, isOpen.notNull, room⟩, rfl⟩

/-- The loop of a descriptor goes on until all bytes have been taken. -/
theorem run_open {s : S8} {fuel : Nat} {out : Output} {off : Nat} (isOpen : Open out)
    (enough : s.length - off < fuel) :
    ∃ out', Loop.run (printBody s) fuel ⟨out, off⟩ = some (.ok out') ∧
      out'.taken = out.taken ++ s.drop off ∧ Open out' ∧ out'.b.cap = out.b.cap := by
  induction fuel generalizing out off with
  | zero => exact absurd enough (Nat.not_lt_zero _)
  | succ fuel ih =>
      by_cases inside : off < s.length
      · obtain ⟨next, off', turn, further, same, isOpen', cap⟩ := printBody_open isOpen inside
        have less : s.length - off' < fuel := by omega
        obtain ⟨out', run, taken, isOpen'', cap'⟩ := ih isOpen' less
        rw [Loop.run_succ_inl turn]
        exact ⟨out', run, taken.trans same, isOpen'', cap'.trans cap⟩
      · have outside : s.length ≤ off := Nat.not_lt.mp inside
        rw [Loop.run_succ_inr (printBody_end outside)]
        exact ⟨out, rfl, by rw [List.drop_eq_nil_of_le outside, List.append_nil], isOpen, rfl⟩

/-- A call to the buffer of a descriptor takes the bytes that it prints. -/
theorem Call.run_open {fuel : Nat} {out : Output} (isOpen : Open out) (call : Call)
    (enough : call.bytes.length < fuel) :
    ∃ out', call.run fuel out = some (.ok out') ∧ out'.taken = out.taken ++ call.bytes ∧
      Open out' ∧ out'.b.cap = out.b.cap := by
  have printed : ∀ s : S8, s.length < fuel → ∃ out', out.printS8 fuel s = some (.ok out') ∧
      out'.taken = out.taken ++ s ∧ Open out' ∧ out'.b.cap = out.b.cap := by
    intro s enough
    rw [Output.printS8, if_neg isOpen.notNull]
    exact Output.run_open isOpen enough
  cases call with
  | printS8 s => exact printed s enough
  | printU8 c => exact printed [c] enough
  | flush =>
      obtain ⟨out', flushed, taken, b⟩ := out.flush_taken isOpen.notMemory isOpen.notNull
      refine ⟨out', congrArg some flushed, by rw [taken]; exact (List.append_nil _).symm, ?_,
        by rw [b]⟩
      constructor <;> rw [b]
      · exact isOpen.notMemory
      · exact isOpen.notNull
      · exact Nat.zero_lt_of_lt isOpen.room

/-- An open buffer takes all calls. -/
theorem runCalls_open {fuel : Nat} {out : Output} (isOpen : Open out) (calls : List Call)
    (enough : ∀ call ∈ calls, call.bytes.length < fuel) :
    ∃ out', runCalls fuel out calls = some (.ok out') ∧
      out'.taken = out.taken ++ calls.flatMap Call.bytes ∧ Open out' ∧ out'.b.cap = out.b.cap := by
  induction calls generalizing out with
  | nil => exact ⟨out, rfl, (List.append_nil _).symm, isOpen, rfl⟩
  | cons call calls ih =>
      rw [List.forall_mem_cons] at enough
      obtain ⟨next, run, taken, isOpen', cap⟩ := call.run_open isOpen enough.1
      obtain ⟨out', runs, taken', isOpen'', cap'⟩ := ih isOpen' enough.2
      refine ⟨out', by rw [runCalls, run]; exact runs, ?_, isOpen'', cap'.trans cap⟩
      rw [taken', taken, List.flatMap_cons, List.append_assoc]

/-- A memory buffer with room for another byte, where an empty buffer needs no room. -/
structure InMemory (out : Output) : Prop where
  memory : out.b.fd = 0
  room : out.b.buf = [] ∨ out.b.buf.length < out.b.cap

/-- A memory buffer is not the null buffer. -/
theorem InMemory.notNull {out : Output} (inMemory : InMemory out) : out.b.fd ≠ -1 := by
  rw [inMemory.memory]
  decide

/-- What printing to a memory buffer returns. -/
def memoryResult (out : Output) (bytes : S8) : Except Stop Output :=
  if bytes = [] ∨ out.b.buf.length + bytes.length < out.b.cap then .ok (out.fill bytes)
  else .error .outOfMemory

/-- Nothing is filled in. -/
theorem fill_nil (out : Output) : out.fill [] = out := by
  rw [fill, List.append_nil]

/-- A memory buffer stays one when the bytes fit. -/
theorem InMemory.fill {out : Output} (inMemory : InMemory out) {bytes : S8}
    (fits : bytes = [] ∨ out.b.buf.length + bytes.length < out.b.cap) :
    InMemory (out.fill bytes) := by
  refine ⟨inMemory.memory, ?_⟩
  rcases fits with empty | room
  · rw [empty, fill_nil]
    exact inMemory.room
  · exact .inr (by rw [Output.fill, List.length_append]; exact room)

/-- A memory buffer takes all of a string in one turn, or it gets full and cannot be flushed. -/
theorem printS8_memory {fuel : Nat} {out : Output} (inMemory : InMemory out) (s : S8)
    (enough : s.length < fuel) : out.printS8 fuel s = some (out.memoryResult s) := by
  have notNull := inMemory.notNull
  have fits : out.b.buf.length ≤ out.b.cap := by
    rcases inMemory.room with empty | room
    · rw [empty]
      exact Nat.zero_le _
    · exact room.le
  obtain ⟨fuel, rfl⟩ : ∃ rest, fuel = rest + 1 := ⟨fuel - 1, by omega⟩
  rw [printS8, if_neg notNull, memoryResult]
  by_cases empty : s = []
  · subst empty
    rw [if_pos (.inl rfl), Loop.run_succ_inr (printBody_end (Nat.le_refl 0)), fill_nil]
  · have positive := List.length_pos_of_ne_nil empty
    have length := length_chunk out s 0
    have turn := printBody_fill positive fits
    by_cases full : out.b.buf.length + (out.chunk s 0).length = out.b.cap
    · have flushed : flush (out.fill (out.chunk s 0)) = .error .outOfMemory :=
        (if_neg notNull).trans (if_pos inMemory.memory)
      have tooLong : ¬(s = [] ∨ out.b.buf.length + s.length < out.b.cap) := by
        rw [not_or]
        exact ⟨empty, by omega⟩
      rw [if_pos full, flushed] at turn
      rw [Loop.run_succ_inr turn, if_neg tooLong]
    · have whole : out.chunk s 0 = s := by
        rw [chunk, List.drop_zero, List.take_of_length_le]
        omega
      rw [if_neg full, whole, Nat.zero_add] at turn
      rw [whole] at full length
      obtain ⟨fuel, rfl⟩ : ∃ rest, fuel = rest + 1 := ⟨fuel - 1, by omega⟩
      rw [Loop.run_succ_inl turn, Loop.run_succ_inr (printBody_end (Nat.le_refl _)),
        if_pos (.inr (by omega))]

/-- The output that prints to a memory buffer. -/
def ofMemBuf (mem : MemBuf) : Output := ⟨⟨mem.buf, mem.cap, 0⟩, []⟩

/-- A byte is printed to the output of a memory buffer as it is to the buffer itself. -/
theorem printU8_ofMemBuf {fuel : Nat} {mem : MemBuf} (inMemory : InMemory (ofMemBuf mem))
    (c : UInt8) (enough : 1 < fuel) :
    (ofMemBuf mem).printU8 fuel c = some ((mem.printU8 c).map ofMemBuf) := by
  rw [printU8, printS8_memory inMemory [c] enough, memoryResult, MemBuf.printU8]
  by_cases room : mem.buf.length + 1 < mem.cap
  · rw [if_pos (.inr room), if_pos room]
    rfl
  · have full : ¬([c] = [] ∨ (ofMemBuf mem).b.buf.length + [c].length < (ofMemBuf mem).b.cap) :=
      not_or.mpr ⟨List.cons_ne_nil c [], room⟩
    rw [if_neg full, if_neg room]
    rfl

/-- Bytes that fit leave room for the bytes that fit after them. -/
theorem memoryResult_append {out : Output} {bytes : S8}
    (fits : bytes = [] ∨ out.b.buf.length + bytes.length < out.b.cap) (more : S8) :
    (out.fill bytes).memoryResult more = out.memoryResult (bytes ++ more) := by
  have filled : (out.fill bytes).fill more = out.fill (bytes ++ more) := by
    rw [fill, fill, fill, List.append_assoc]
  have length : (out.fill bytes).b.buf.length = out.b.buf.length + bytes.length :=
    List.length_append
  have cap : (out.fill bytes).b.cap = out.b.cap := rfl
  rw [memoryResult, memoryResult, filled, length, cap, List.length_append, ← Nat.add_assoc]
  by_cases empty : bytes = []
  · rw [empty]
    rfl
  · have room := fits.resolve_left empty
    have notEmpty : bytes ++ more ≠ [] := fun both => empty (List.append_eq_nil_iff.mp both).1
    by_cases nothing : more = []
    · rw [if_pos (.inl nothing), nothing, List.append_nil, if_pos (.inr room)]
    · simp only [nothing, notEmpty, false_or]

/-- A call that is no flush prints all of its bytes to a memory buffer or none of them. -/
theorem Call.run_memory {fuel : Nat} {out : Output} (inMemory : InMemory out) (call : Call)
    (noFlush : call ≠ .flush) (enough : call.bytes.length < fuel) :
    call.run fuel out = some (out.memoryResult call.bytes) := by
  cases call with
  | printS8 s => exact printS8_memory inMemory s enough
  | printU8 c => exact printS8_memory inMemory [c] enough
  | flush => exact absurd rfl noFlush

/-- A memory buffer that is only printed to takes all bytes, or the program is out of memory. -/
theorem runCalls_memory {fuel : Nat} {out : Output} (inMemory : InMemory out) (calls : List Call)
    (printed : .flush ∉ calls) (enough : ∀ call ∈ calls, call.bytes.length < fuel) :
    runCalls fuel out calls = some (out.memoryResult (calls.flatMap Call.bytes)) := by
  induction calls generalizing out with
  | nil => rw [runCalls, memoryResult, List.flatMap_nil, if_pos (.inl rfl), fill_nil]
  | cons call calls ih =>
      rw [List.forall_mem_cons] at enough
      rw [List.mem_cons, not_or] at printed
      have run := call.run_memory inMemory (Ne.symm printed.1) enough.1
      rw [runCalls, run, List.flatMap_cons, memoryResult]
      by_cases fits : call.bytes = [] ∨ out.b.buf.length + call.bytes.length < out.b.cap
      · rw [if_pos fits, ← memoryResult_append fits]
        exact ih (inMemory.fill fits) printed.2 enough.2
      · have full : ¬(call.bytes ++ calls.flatMap Call.bytes = [] ∨ out.b.buf.length +
            (call.bytes ++ calls.flatMap Call.bytes).length < out.b.cap) := by
          rw [not_or, List.append_eq_nil_iff, List.length_append] at *
          exact ⟨fun both => fits.1 both.1, by omega⟩
        rw [if_neg fits, memoryResult, if_neg full]

/-- A memory buffer that is flushed is out of memory, if it has not been before. -/
theorem runCalls_flush {fuel : Nat} {out : Output} (inMemory : InMemory out) (calls : List Call)
    (flushed : .flush ∈ calls) (enough : ∀ call ∈ calls, call.bytes.length < fuel) :
    runCalls fuel out calls = some (.error .outOfMemory) := by
  induction calls generalizing out with
  | nil => cases flushed
  | cons call calls ih =>
      rw [List.forall_mem_cons] at enough
      rw [runCalls]
      by_cases isFlush : call = .flush
      · rw [isFlush, Call.run, Output.flush, if_neg inMemory.notNull, if_pos inMemory.memory]
      · rw [call.run_memory inMemory isFlush enough.1, memoryResult]
        by_cases fits : call.bytes = [] ∨ out.b.buf.length + call.bytes.length < out.b.cap
        · rw [if_pos fits]
          have later := (List.mem_cons.mp flushed).resolve_left (Ne.symm isFlush)
          exact ih (inMemory.fill fits) later enough.2
        · rw [if_neg fits]

/-- The buffer of a descriptor loses no byte and always has room for another one.
A memory buffer returns the bytes and advances its arena by their number, and the program is
out of memory if they are as long as the arena. -/
theorem runCalls_faithful :
    (∀ (fd : Int) (cap : Nat), fd ≠ 0 → fd ≠ -1 → 0 < cap → ∀ (calls : List Call) (fuel : Nat),
      (∀ call ∈ calls, call.bytes.length < fuel) →
        ∃ out, runCalls fuel (newFdBuf fd cap) calls = some (.ok out) ∧
          out.written.flatten ++ out.b.buf = calls.flatMap Call.bytes ∧ out.b.buf.length < cap) ∧
    ∀ (perm : Arena) (calls : List Call) (fuel : Nat), .flush ∉ calls →
      (∀ call ∈ calls, call.bytes.length < fuel) →
        let bytes := calls.flatMap Call.bytes
        if bytes.length ≠ 0 ∧ perm.finish - perm.beg ≤ bytes.length then
          runCalls fuel (newMemBuf perm) calls = some (.error .outOfMemory)
        else
          ∃ out, runCalls fuel (newMemBuf perm) calls = some (.ok out) ∧
            out.finalize perm = .ok (bytes, { perm with beg := perm.beg + bytes.length }) := by
  constructor
  · intro fd cap notMemory notNull room calls fuel enough
    have isOpen : Open (newFdBuf fd cap) := ⟨notMemory, notNull, room⟩
    obtain ⟨out, run, taken, isOpen', cap'⟩ := runCalls_open isOpen calls enough
    exact ⟨out, run, taken, lt_of_lt_of_eq isOpen'.room cap'⟩
  · intro perm calls fuel printed enough
    have inMemory : InMemory (newMemBuf perm) := ⟨rfl, .inl rfl⟩
    have run := runCalls_memory inMemory calls printed enough
    have empty : (newMemBuf perm).b.buf.length = 0 := rfl
    have cap : (newMemBuf perm).b.cap = perm.finish - perm.beg := rfl
    intro bytes
    change runCalls fuel (newMemBuf perm) calls = some (memoryResult _ bytes) at run
    have nothing : bytes = [] ↔ bytes.length = 0 := List.length_eq_zero_iff.symm
    rw [memoryResult, empty, cap] at run
    split
    case isTrue full =>
      rw [run, if_neg (by rw [nothing]; omega)]
    case isFalse fits =>
      rw [if_pos (by rw [nothing]; omega)] at run
      exact ⟨_, run, rfl⟩

/-- A small buffer flushes on its way, and a memory buffer keeps everything. -/
theorem runCalls_faithful_abc :
    (∃ out, runCalls 4 (newFdBuf 1 2) [.printS8 (S "abc"), .flush, .printU8 10] = some (.ok out) ∧
      out.written.flatten ++ out.b.buf = S "abc\n" ∧ out.b.buf.length < 2) ∧
    ∃ out, runCalls 4 (newMemBuf ⟨0, 5⟩) [.printS8 (S "abc"), .printU8 10] = some (.ok out) ∧
      out.finalize ⟨0, 5⟩ = .ok (S "abc\n", ⟨4, 5⟩) := by
  constructor
  · exact runCalls_faithful.1 1 2 (by decide) (by decide) (by decide) _ 4 (by decide)
  · have memory := runCalls_faithful.2 ⟨0, 5⟩ [.printS8 (S "abc"), .printU8 10] 4 (by simp)
      (by decide)
    exact memory

end Output

end UConfig
