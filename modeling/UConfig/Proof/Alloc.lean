/-
This file proves that the blocks of an arena and its memory buffers never overlap.
-/

import Mathlib.Algebra.Order.Ring.Int
import UConfig.Library.Carving
import UConfig.Program.Alloc
import UConfig.Proof.Output

namespace UConfig

/-- An assertion that holds changes nothing. -/
theorem ensure_run {condition : Prop} [Decidable condition] (holds : condition) (a : Arena) :
    (ensure condition).run a = .ok () a := by
  rw [ensure, if_pos holds]
  rfl

/-- A result in its range does not overflow. -/
theorem Iz.check_run {iz : Iz} {x : Int} (inRange : -iz.bound ≤ x ∧ x < iz.bound) (a : Arena) :
    (iz.check x).run a = .ok x a := by
  simp only [check, EStateM.run_bind, ensure_run inRange, EStateM.run_pure]

/-- The size type has at least 32 bits. -/
theorem Iz.bound_ge (iz : Iz) : 2 ^ 31 ≤ iz.bound := by
  have wide := iz.wide
  exact pow_le_pow_right₀ (by decide) (by omega)

/-- The least multiple of eight that is not below the number. -/
def roundUp8 (n : Int) : Int := (n + 7) / 8 * 8

/-- Rounding up makes nothing smaller. -/
theorem le_roundUp8 (n : Int) : n ≤ roundUp8 n := by
  rw [roundUp8]
  omega

/-- Rounding up adds at most seven. -/
theorem roundUp8_le (n : Int) : roundUp8 n ≤ n + 7 := by
  rw [roundUp8]
  omega

/-- The padding is computed without the upper bits of the size, which do not matter for it. -/
theorem alignment_eq (size count : Int) :
    ((-(UInt32.ofInt size * UInt32.ofInt count) &&& 7).toNat : Int) =
      roundUp8 (size * count) - size * count := by
  have product : -(UInt32.ofInt size * UInt32.ofInt count) = UInt32.ofInt (-(size * count)) := by
    rw [UInt32.ofInt_neg, UInt32.ofInt_mul]
  have low : (-(UInt32.ofInt size * UInt32.ofInt count) &&& 7).toNat =
      (-(size * count) % 2 ^ 32).toNat % 2 ^ 32 % 8 := by
    rw [product, UInt32.toNat_and, UInt32.ofInt, UInt32.toNat_ofNat']
    exact Nat.and_two_pow_sub_one_eq_mod _ 3
  rw [low, roundUp8]
  omega

/-- The free size is negative if even the padding does not fit, and then the count is not zero. -/
theorem exceeds_iff {size count distance : Int} (positive : size > 0) (counted : count ≥ 0)
    (nonneg : 0 ≤ distance) :
    count > (distance - (roundUp8 (size * count) - size * count)).tdiv size ↔
      distance < roundUp8 (size * count) := by
  have padding := le_roundUp8 (size * count)
  by_cases enough : roundUp8 (size * count) - size * count ≤ distance
  · rw [Int.tdiv_eq_ediv_of_nonneg (by omega), gt_iff_lt, Int.ediv_lt_iff_lt_mul positive,
      mul_comm count]
    omega
  · have notEmpty : count ≠ 0 := by
      intro empty
      rw [empty, mul_zero] at enough
      exact enough nonneg
    have quotient : (distance - (roundUp8 (size * count) - size * count)).tdiv size ≤ 0 := by
      rw [← neg_sub, Int.neg_tdiv, neg_nonpos]
      exact Int.tdiv_nonneg (by omega) positive.le
    have total := Int.mul_nonneg positive.le counted
    omega

/-- The arena is one object, so the distance of its pointers is in range. -/
structure Arena.Valid (iz : Iz) (a : Arena) : Prop where
  ordered : a.beg ≤ a.finish
  aligned : 8 ∣ a.finish
  sized : (a.finish : Int) - a.beg < iz.bound

/-- All values between the padding that does not fit and the free bytes are in range. -/
theorem Arena.Valid.check_run {iz : Iz} {a : Arena} (valid : a.Valid iz) {x : Int} (low : -7 ≤ x)
    (high : x ≤ (a.finish : Int) - a.beg) : (iz.check x).run a = .ok x a := by
  have bound := iz.bound_ge
  have sized := valid.sized
  exact Iz.check_run ⟨by omega, by omega⟩ a

/-- An allocation only fails if its rounded size exceeds the free bytes. -/
theorem alloc_run {iz : Iz} {size count : Int} {a : Arena} (valid : a.Valid iz)
    (positive : size > 0) (counted : count ≥ 0) :
    (alloc iz size count).run a =
      if (a.finish : Int) - a.beg < roundUp8 (size * count) then .error .outOfMemory a
      else .ok ⟨a.finish - (roundUp8 (size * count)).toNat, (size * count).toNat⟩
        { a with finish := a.finish - (roundUp8 (size * count)).toNat } := by
  have nonneg : 0 ≤ (a.finish : Int) - a.beg := sub_nonneg.mpr (Int.ofNat_le.mpr valid.ordered)
  have total := Int.mul_nonneg positive.le counted
  have rounded := le_roundUp8 (size * count)
  have padding := roundUp8_le (size * count)
  have distance := valid.check_run (by omega) (le_refl ((a.finish : Int) - a.beg))
  have available := valid.check_run (by omega) (sub_le_self _ (sub_nonneg.mpr rounded))
  simp only [alloc, EStateM.run_bind, ensure_run positive, ensure_run counted, EStateM.run_get,
    alignment_eq, distance, available, exceeds_iff positive counted nonneg]
  split
  case isTrue => rfl
  case isFalse fits =>
    rw [not_lt] at fits
    have used : size * count + (roundUp8 (size * count) - size * count) =
        roundUp8 (size * count) := add_sub_cancel _ _
    have inRange := valid.check_run (by omega) (rounded.trans fits)
    have inRange' := valid.check_run (by omega) fits
    simp only [EStateM.run_bind, inRange, used, inRange', ensure_run fits, EStateM.run_set,
      EStateM.run_pure]

/-- A string is a block of bytes, whose number does not overflow. -/
theorem news8_run {iz : Iz} {len : Int} {a : Arena} (valid : a.Valid iz) (counted : len ≥ 0) :
    (news8 iz len).run a = (alloc iz 1 len).run a := by
  have run := alloc_run valid Int.one_pos counted
  rw [one_mul] at run
  rw [news8, EStateM.run_bind, run]
  by_cases exceeds : (a.finish : Int) - a.beg < roundUp8 len
  · rw [if_pos exceeds]
  · rw [if_neg exceeds]
    rfl

/-- The block is one of free bytes, and none of its bytes is free in the next arena. -/
structure Takes (iz : Iz) (a : Arena) (block : Block) (a' : Arena) : Prop where
  valid : a'.Valid iz
  beg : a.beg ≤ a'.beg
  finish : a'.finish ≤ a.finish
  low : a.beg ≤ block.start
  high : block.start + block.len ≤ a.finish
  apart : block.start + block.len ≤ a'.beg ∨ a'.finish ≤ block.start

/-- What is asked of the arena, where a memory buffer is finalized after its calls. -/
inductive Request where
  | alloc (size count : Int)
  | news8 (len : Int)
  | memBuf (calls : List Output.Call)

def Request.run (iz : Iz) (fuel : Nat) (a : Arena) :
    Request → Option (EStateM.Result Stop Arena Block)
  | alloc size count => some ((UConfig.alloc iz size count).run a)
  | news8 len => some ((UConfig.news8 iz len).run a)
  | memBuf calls =>
      (Output.runCalls fuel (Output.newMemBuf a) calls).map fun printed =>
        match printed.bind fun out => out.finalize a with
        | .error stop => .error stop a
        | .ok (bytes, a') => .ok ⟨a.beg, bytes.length⟩ a'

/-- The assertions hold for the sizes, and the fuel is enough for every string that is printed. -/
def Request.Legal (fuel : Nat) : Request → Prop
  | alloc size count => size > 0 ∧ count ≥ 0
  | news8 len => len ≥ 0
  | memBuf calls => ∀ call ∈ calls, call.bytes.length < fuel

instance (fuel : Nat) : DecidablePred (Request.Legal fuel)
  | .alloc size count => inferInstanceAs (Decidable (size > 0 ∧ count ≥ 0))
  | .news8 len => inferInstanceAs (Decidable (len ≥ 0))
  | .memBuf calls => inferInstanceAs (Decidable (∀ call ∈ calls, call.bytes.length < fuel))

/-- The number of bytes of the object that is asked for. -/
def Request.size : Request → Int
  | alloc size count => size * count
  | news8 len => len
  | memBuf calls => (calls.flatMap Output.Call.bytes).length

/-- What the arena cannot serve. A memory buffer that is flushed or that gets as long as the free
bytes is out of memory. -/
def Request.Exceeds (a : Arena) : Request → Prop
  | alloc size count => roundUp8 (size * count) > (a.finish : Int) - a.beg
  | news8 len => roundUp8 len > (a.finish : Int) - a.beg
  | memBuf calls => .flush ∈ calls ∨ calls.flatMap Output.Call.bytes ≠ [] ∧
      a.finish - a.beg ≤ (calls.flatMap Output.Call.bytes).length

/-- Either a block of the right size is taken, or the arena is too small and stays as it is. -/
inductive Request.Outcome (iz : Iz) (a : Arena) (request : Request) :
    EStateM.Result Stop Arena Block → Prop
  | full (exceeds : request.Exceeds a) : Outcome iz a request (.error .outOfMemory a)
  | taken {block : Block} {a' : Arena} (fits : ¬request.Exceeds a)
      (size : (block.len : Int) = request.size) (takes : Takes iz a block a') :
      Outcome iz a request (.ok block a')

/-- A block is taken from the end, and the end stays aligned as the rounded size is. -/
theorem alloc_outcome {iz : Iz} {size count : Int} {a : Arena} (valid : a.Valid iz)
    (positive : size > 0) (counted : count ≥ 0) :
    (Request.alloc size count).Outcome iz a ((alloc iz size count).run a) := by
  have total := Int.mul_nonneg positive.le counted
  rw [alloc_run valid positive counted]
  by_cases exceeds : (a.finish : Int) - a.beg < roundUp8 (size * count)
  · rw [if_pos exceeds]
    exact .full exceeds
  · rw [if_neg exceeds]
    refine .taken exceeds (Int.toNat_of_nonneg total) ?_
    have ordered := valid.ordered
    have aligned := valid.aligned
    have sized := valid.sized
    have rounded := le_roundUp8 (size * count)
    have multiple : 8 ∣ roundUp8 (size * count) := Int.dvd_mul_left _ _
    constructor
    case valid => exact ⟨by dsimp only; omega, by dsimp only; omega, by dsimp only; omega⟩
    all_goals dsimp only
    all_goals omega

/-- A string is allocated as the block of its bytes. -/
theorem news8_outcome {iz : Iz} {len : Int} {a : Arena} (valid : a.Valid iz) (counted : len ≥ 0) :
    (Request.news8 len).Outcome iz a ((news8 iz len).run a) := by
  rw [news8_run valid counted]
  have outcome := alloc_outcome valid Int.one_pos counted
  generalize (alloc iz 1 len).run a = result at outcome ⊢
  cases outcome with
  | full exceeds =>
      rw [Request.Exceeds, one_mul] at exceeds
      exact .full exceeds
  | taken fits size takes =>
      rw [Request.Exceeds, one_mul] at fits
      rw [Request.size, one_mul] at size
      exact .taken fits size takes

/-- The bytes of a memory buffer are taken from the beginning when it is finalized. -/
theorem finalize_takes {iz : Iz} {a : Arena} (valid : a.Valid iz) {out : Output}
    (inMemory : out.InMemory) (cap : out.b.cap = a.finish - a.beg) :
    ∃ a', out.finalize a = .ok (out.b.buf, a') ∧ Takes iz a ⟨a.beg, out.b.buf.length⟩ a' := by
  have notFd : ¬out.b.fd ≠ 0 := not_not.mpr inMemory.memory
  refine ⟨_, if_neg notFd, ?_⟩
  have ordered := valid.ordered
  have sized := valid.sized
  have room : out.b.buf.length ≤ a.finish - a.beg := by
    rcases inMemory.room with empty | room
    · rw [empty]
      exact Nat.zero_le _
    · omega
  constructor
  case valid => exact ⟨by dsimp only; omega, valid.aligned, by dsimp only; omega⟩
  all_goals dsimp only
  all_goals omega

/-- A memory buffer is the block of the bytes that were printed to it. -/
theorem memBuf_outcome {iz : Iz} {fuel : Nat} {a : Arena} (valid : a.Valid iz)
    (calls : List Output.Call) (enough : ∀ call ∈ calls, call.bytes.length < fuel) :
    ∃ result, (Request.memBuf calls).run iz fuel a = some result ∧
      (Request.memBuf calls).Outcome iz a result := by
  have inMemory : (Output.newMemBuf a).InMemory := ⟨rfl, .inl rfl⟩
  rw [Request.run]
  by_cases flushed : .flush ∈ calls
  · rw [Output.runCalls_flush inMemory calls flushed enough]
    exact ⟨_, rfl, .full (.inl flushed)⟩
  · rw [Output.runCalls_memory inMemory calls flushed enough, Output.memoryResult]
    have empty : (Output.newMemBuf a).b.buf.length = 0 := rfl
    have cap : (Output.newMemBuf a).b.cap = a.finish - a.beg := rfl
    rw [empty, cap, Nat.zero_add]
    split
    case isTrue room =>
      have fits : ¬(Request.memBuf calls).Exceeds a := by
        rintro (isFlushed | ⟨filled, full⟩)
        · exact flushed isFlushed
        · exact absurd (room.resolve_left filled) (Nat.not_lt.mpr full)
      have inMemory' : ((Output.newMemBuf a).fill (calls.flatMap Output.Call.bytes)).InMemory :=
        inMemory.fill (by rwa [empty, cap, Nat.zero_add])
      obtain ⟨a', finalized, takes⟩ := finalize_takes valid inMemory' rfl
      refine ⟨_, ?_, .taken fits rfl takes⟩
      rw [Option.map_some, Except.bind, finalized]
    case isFalse noRoom =>
      rw [not_or, Nat.not_lt] at noRoom
      exact ⟨_, rfl, .full (.inr noRoom)⟩

/-- Every legal request is answered, and it fails exactly if it exceeds the arena. -/
theorem Request.run_outcome {iz : Iz} {fuel : Nat} {a : Arena} (valid : a.Valid iz)
    (request : Request) (legal : request.Legal fuel) :
    ∃ result, request.run iz fuel a = some result ∧ request.Outcome iz a result := by
  cases request with
  | alloc size count => exact ⟨_, rfl, alloc_outcome valid legal.1 legal.2⟩
  | news8 len => exact ⟨_, rfl, news8_outcome valid legal⟩
  | memBuf calls => exact memBuf_outcome valid calls legal

/-- A request with the arena that it was made of and the block that it was given. -/
structure Answer where
  request : Request
  before : Arena
  block : Option Block

/-- The arena and the answers that it has given so far, the last one first. -/
structure Session where
  arena : Arena
  answers : List Answer

/-- The blocks and the memory buffers that have been taken so far. -/
def Session.blocks (session : Session) : List Block := session.answers.filterMap Answer.block

/-- A request that runs out of memory does not end the session, as a caller may jump out of it. -/
def Session.serve (iz : Iz) (fuel : Nat) (session : Session) (request : Request) :
    Option (Except Stop Session) :=
  (request.run iz fuel session.arena).map fun
    | .ok block a => .ok ⟨a, ⟨request, session.arena, some block⟩ :: session.answers⟩
    | .error .outOfMemory a => .ok ⟨a, ⟨request, session.arena, none⟩ :: session.answers⟩
    | .error stop _ => .error stop

def Session.run (iz : Iz) (fuel : Nat) (session : Session) :
    List Request → Option (Except Stop Session)
  | [] => some (.ok session)
  | request :: requests =>
      match session.serve iz fuel request with
      | some (.ok next) => next.run iz fuel requests
      | stopped => stopped

def Arena.interval (a : Arena) (ordered : a.beg ≤ a.finish) : NonemptyInterval Nat :=
  ⟨(a.beg, a.finish), ordered⟩

def Block.interval (block : Block) : NonemptyInterval Nat :=
  ⟨(block.start, block.start + block.len), Nat.le_add_right _ _⟩

/-- A request gets a block unless it exceeds the arena, and the block has the size that was asked
for. -/
structure Answer.Right (answer : Answer) : Prop where
  refused : answer.block = none ↔ answer.request.Exceeds answer.before
  size : ∀ block, answer.block = some block → (block.len : Int) = answer.request.size

/-- The blocks are pieces of the whole arena that are apart from its free bytes, and all answers
are right. -/
structure Session.Inv (iz : Iz) (whole : NonemptyInterval Nat) (session : Session) : Prop where
  valid : session.arena.Valid iz
  carved : Carving.Carved whole (session.arena.interval valid.ordered)
    (session.blocks.map Block.interval)
  right : ∀ answer ∈ session.answers, answer.Right

/-- One more request keeps the invariant, and its answer goes before the others. -/
theorem Session.serve_inv {iz : Iz} {fuel : Nat} {whole : NonemptyInterval Nat}
    {session : Session} (inv : session.Inv iz whole) (request : Request)
    (legal : request.Legal fuel) :
    ∃ next, session.serve iz fuel request = some (.ok next) ∧ next.Inv iz whole ∧
      next.answers.map Answer.request = request :: session.answers.map Answer.request := by
  obtain ⟨result, run, outcome⟩ := request.run_outcome inv.valid legal
  cases outcome with
  | full exceeds =>
      refine ⟨⟨session.arena, ⟨request, session.arena, none⟩ :: session.answers⟩,
        by rw [serve, run]; rfl, ⟨inv.valid, inv.carved, ?_⟩, rfl⟩
      refine List.forall_mem_cons.mpr ⟨⟨iff_of_true rfl exceeds, ?_⟩, inv.right⟩
      intro block isBlock
      cases isBlock
  | @taken block a fits size takes =>
      have inside : block.interval ≤ session.arena.interval inv.valid.ordered :=
        NonemptyInterval.le_def.mpr ⟨takes.low, takes.high⟩
      have kept : a.interval takes.valid.ordered ≤ session.arena.interval inv.valid.ordered :=
        NonemptyInterval.le_def.mpr ⟨takes.beg, takes.finish⟩
      refine ⟨⟨a, ⟨request, session.arena, some block⟩ :: session.answers⟩,
        by rw [serve, run]; rfl, ⟨takes.valid, ?_, ?_⟩, rfl⟩
      · exact inv.carved.take inside kept takes.apart
      · refine List.forall_mem_cons.mpr ⟨⟨iff_of_false (Option.some_ne_none block) fits, ?_⟩,
          inv.right⟩
        intro other isBlock
        cases isBlock
        exact size

/-- A run answers all of its requests in their order and keeps the invariant. -/
theorem Session.run_inv {iz : Iz} {fuel : Nat} {whole : NonemptyInterval Nat}
    {session : Session} (inv : session.Inv iz whole) (requests : List Request)
    (legal : ∀ request ∈ requests, request.Legal fuel) :
    ∃ last, session.run iz fuel requests = some (.ok last) ∧ last.Inv iz whole ∧
      last.answers.map Answer.request =
        requests.reverse ++ session.answers.map Answer.request := by
  induction requests generalizing session with
  | nil => exact ⟨session, rfl, inv, rfl⟩
  | cons request requests ih =>
      rw [List.forall_mem_cons] at legal
      obtain ⟨next, served, inv', answered⟩ := serve_inv inv request legal.1
      obtain ⟨last, ran, inv'', answered'⟩ := ih inv' legal.2
      refine ⟨last, by rw [run, served]; exact ran, inv'', ?_⟩
      rw [answered', answered, List.reverse_cons, List.append_assoc, List.singleton_append]

def Block.addresses (block : Block) : Set Nat :=
  Set.Ico block.start (block.start + block.len)

/-- Every request is answered, and it gets a block of exactly its size unless its size, rounded for
an allocation, exceeds the bytes that are free. Blocks and memory buffers lie in the arena and share
no byte, whatever is asked of the arena, and an arena that is out of memory stays as it is. -/
theorem Session.run_arena_invariant {iz : Iz} {fuel : Nat} {a : Arena} (valid : a.Valid iz)
    (requests : List Request) (legal : ∀ request ∈ requests, request.Legal fuel) :
    ∃ last, run iz fuel ⟨a, []⟩ requests = some (.ok last) ∧
      (last.arena.beg ≤ last.arena.finish ∧ 8 ∣ last.arena.finish) ∧
      last.answers.reverse.map Answer.request = requests ∧
      (∀ answer ∈ last.answers,
        (answer.block = none ↔ answer.request.Exceeds answer.before) ∧
        ∀ block, answer.block = some block → (block.len : Int) = answer.request.size) ∧
      (∀ block ∈ last.blocks, a.beg ≤ block.start ∧ block.start + block.len ≤ a.finish) ∧
      last.blocks.Pairwise (fun block other => Disjoint block.addresses other.addresses) ∧
      ∀ size count, size > 0 → count ≥ 0 → ∀ after,
        (alloc iz size count).run last.arena = .error .outOfMemory after ↔
          after = last.arena ∧
            roundUp8 (size * count) > (last.arena.finish : Int) - last.arena.beg := by
  have start : Session.Inv iz (a.interval valid.ordered) ⟨a, []⟩ := ⟨valid, .start _, nofun⟩
  obtain ⟨last, ran, inv, answered⟩ := run_inv start requests legal
  refine ⟨last, ran, ⟨inv.valid.ordered, inv.valid.aligned⟩, ?_, ?_, ?_, ?_, ?_⟩
  · rw [List.map_reverse, answered, List.map_nil, List.append_nil, List.reverse_reverse]
  · exact fun answer member => ⟨(inv.right answer member).refused, (inv.right answer member).size⟩
  · intro block member
    have inside := inv.carved.inside block.interval (List.mem_map_of_mem member)
    exact NonemptyInterval.le_def.mp inside
  · have apart := List.pairwise_map.mp inv.carved.apart
    exact apart.imp Carving.Apart.disjoint
  · intro size count positive counted after
    rw [alloc_run inv.valid positive counted]
    by_cases exceeds : (last.arena.finish : Int) - last.arena.beg < roundUp8 (size * count)
    · rw [if_pos exceeds, EStateM.Result.error.injEq]
      exact ⟨fun same => ⟨same.2.symm, exceeds⟩, fun both => ⟨rfl, both.1.symm⟩⟩
    · rw [if_neg exceeds]
      exact ⟨fun same => (by cases same), fun both => absurd both.2 exceeds⟩

/-- The second request is a memory buffer at the beginning, and the third one is much too large. -/
theorem Session.run_arena_invariant_small :
    ∃ last, run ⟨64, by decide⟩ 2 ⟨⟨16, 64⟩, []⟩
        [.alloc 3 5, .memBuf [.printU8 10], .alloc (2 ^ 40) (2 ^ 40), .news8 0] = some (.ok last) ∧
      last.answers.reverse.map Answer.block =
        [some ⟨48, 15⟩, some ⟨16, 1⟩, none, some ⟨48, 0⟩] ∧
      (∀ answer ∈ last.answers,
        (answer.block = none ↔ answer.request.Exceeds answer.before) ∧
        ∀ block, answer.block = some block → (block.len : Int) = answer.request.size) ∧
      last.blocks.Pairwise (fun block other => Disjoint block.addresses other.addresses) := by
  obtain ⟨last, ran, _, _, right, _, apart, _⟩ :=
    @run_arena_invariant ⟨64, by decide⟩ 2 ⟨16, 64⟩ ⟨by decide, by decide, by decide⟩
      [.alloc 3 5, .memBuf [.printU8 10], .alloc (2 ^ 40) (2 ^ 40), .news8 0] (by decide)
  refine ⟨last, ran, ?_, right, apart⟩
  cases ran
  rfl

end UConfig
