/-
This file gives the split of a command line as a fold over its code points, without a memory.
-/

import UConfig.Program.Cmdline
import UConfig.Library.Unicode

namespace UConfig

open Unicode

/-- The finished arguments, and the bytes of the argument that is being written. -/
structure ArgScan where
  state : ArgState
  slash : Nat
  done : List S8
  cur : Option S8

namespace ArgScan

def start : ArgScan := ⟨.begin, 0, [], some []⟩

def args (a : ArgScan) : List S8 := a.done ++ a.cur.toList

/-- Every finished argument has a terminator. -/
def text (a : ArgScan) : S8 := a.done.flatMap (· ++ [0]) ++ a.cur.getD []

/-- A move gives the written argument new bytes or finishes it. -/
def move (a : ArgScan) (c : Nat) (move : ArgMove) : ArgScan :=
  let cur := if move.starts then some [] else a.cur
  let cur := cur.map fun s => s.take (s.length - move.retreat)
  if move.out = .terminator then ⟨move.state, move.slash, a.done ++ cur.toList, none⟩
  else ⟨move.state, move.slash, a.done, cur.map (· ++ move.out.bytes c)⟩

/-- The move of the current state. -/
def turn (a : ArgScan) (c : Nat) : ArgScan := a.move c (argMove a.state a.slash c)

/-- A code point that is read again is read by the next state. -/
def step (a : ArgScan) (c : Nat) : ArgScan :=
  if (argMove a.state a.slash c).reread then (a.turn c).turn c else a.turn c

end ArgScan

/-- The arguments that the program produces for a command line. -/
def producedArgs (units : S16) : List S8 := ((codePoints units).foldl ArgScan.step .start).args

/-- A backslash sequence is being read. -/
def ArgState.isSlash (state : ArgState) : Prop := state = .slashUnquoted ∨ state = .slashQuoted

/-- Everything that a move can do. -/
inductive MoveKind (state : ArgState) (slash : Nat) : ArgMove → Prop
  | skips (outside : state = .outside) :
      MoveKind state slash ⟨false, 0, .nothing, false, .outside, slash⟩
  | opens {out : ArgOut} {next : ArgState} {slash' : Nat} (outside : state = .outside)
      (inside : next ≠ .outside) (goesOn : out ≠ .terminator)
      (first : next.isSlash → out = .rune ∧ slash' = 1) :
      MoveKind state slash ⟨true, 0, out, false, next, slash'⟩
  | closes (inside : state ≠ .outside) :
      MoveKind state slash ⟨false, 0, .terminator, false, .outside, slash⟩
  | copies {out : ArgOut} {next : ArgState} {slash' : Nat} (inside : state ≠ .outside)
      (inside' : next ≠ .outside) (goesOn : out ≠ .terminator)
      (counts : next.isSlash → out = .rune ∧
        (slash' = 1 ∨ state.isSlash ∧ slash' = slash + 1)) :
      MoveKind state slash ⟨false, 0, out, false, next, slash'⟩
  | rewinds {out : ArgOut} {reread : Bool} {next : ArgState} (isSlash : state.isSlash)
      (base : next = .unquoted ∨ next = .quoted) (goesOn : out ≠ .terminator)
      (either : reread = true → out = .nothing) :
      MoveKind state slash ⟨false, (1 + slash) / 2, out, reread, next, slash⟩
  | rereads {next : ArgState} (inside : state ≠ .outside) (later : state.isSlash ∨ state = .quotedExit)
      (base : next = .unquoted ∨ next = .quoted) :
      MoveKind state slash ⟨false, 0, .nothing, true, next, slash⟩

/-- Each move of the table is of one kind. -/
theorem argMove_kind (state : ArgState) (slash c : Nat) :
    MoveKind state slash (argMove state slash c) := by
  cases state with
  | outside =>
      rw [argMove]
      split
      · exact .skips rfl
      · split
        · exact .opens rfl (by decide) (by decide) (by simp [ArgState.isSlash])
        · split
          · exact .opens rfl (by decide) (by decide) fun _ => ⟨rfl, rfl⟩
          · exact .opens rfl (by decide) (by decide) (by simp [ArgState.isSlash])
  | unquoted =>
      rw [argMove]
      split
      · exact .closes (by decide)
      · split
        · exact .copies (by decide) (by decide) (by decide) (by simp [ArgState.isSlash])
        · split
          · exact .copies (by decide) (by decide) (by decide) fun _ => ⟨rfl, .inl rfl⟩
          · exact .copies (by decide) (by decide) (by decide) (by simp [ArgState.isSlash])
  | quoted =>
      rw [argMove]
      split
      · exact .copies (by decide) (by decide) (by decide) (by simp [ArgState.isSlash])
      · split
        · exact .copies (by decide) (by decide) (by decide) fun _ => ⟨rfl, .inl rfl⟩
        · exact .copies (by decide) (by decide) (by decide) (by simp [ArgState.isSlash])
  | slashUnquoted =>
      rw [argMove, slashMove]
      have isSlash : ArgState.isSlash .slashUnquoted := .inl rfl
      split
      · split
        · exact .rewinds isSlash (.inl rfl) (by decide) (by simp)
        · exact .rewinds isSlash (.inl rfl) (by decide) (by simp)
      · split
        · exact .copies (by decide) (by decide) (by decide) fun _ => ⟨rfl, .inr ⟨isSlash, rfl⟩⟩
        · exact .rereads (by decide) (.inl isSlash) (.inl rfl)
  | slashQuoted =>
      rw [argMove, slashMove]
      have isSlash : ArgState.isSlash .slashQuoted := .inr rfl
      split
      · split
        · exact .rewinds isSlash (.inr rfl) (by decide) (by simp)
        · exact .rewinds isSlash (.inr rfl) (by decide) (by simp)
      · split
        · exact .copies (by decide) (by decide) (by decide) fun _ => ⟨rfl, .inr ⟨isSlash, rfl⟩⟩
        · exact .rereads (by decide) (.inl isSlash) (.inr rfl)
  | quotedExit =>
      rw [argMove]
      split
      · exact .copies (by decide) (by decide) (by decide) (by simp [ArgState.isSlash])
      · exact .rereads (by decide) (.inr rfl) (.inl rfl)
  | begin =>
      rw [argMove]
      split
      · exact .closes (by decide)
      · split
        · exact .copies (by decide) (by decide) (by decide) (by simp [ArgState.isSlash])
        · exact .copies (by decide) (by decide) (by decide) (by simp [ArgState.isSlash])
  | unquotedFirst =>
      rw [argMove]
      split
      · exact .closes (by decide)
      · exact .copies (by decide) (by decide) (by decide) (by simp [ArgState.isSlash])
  | quotedFirst =>
      rw [argMove]
      split
      · exact .closes (by decide)
      · exact .copies (by decide) (by decide) (by decide) (by simp [ArgState.isSlash])

/-- A rune has one to four bytes. -/
theorem encodeRune_length (c : Nat) : 1 ≤ (encodeRune c).length ∧ (encodeRune c).length ≤ 4 := by
  unfold encodeRune
  split_ifs <;> simp

/-- A rune of one unit has at most three bytes. -/
theorem encodeRune_short {c : Nat} (small : c < 0x10000) : (encodeRune c).length ≤ 3 := by
  unfold encodeRune
  split_ifs <;> simp

/-- Backslashes are counted inside of an argument. -/
theorem isSlash_inside {state : ArgState} (isSlash : state.isSlash) : state ≠ .outside := by
  rcases isSlash with rfl | rfl <;> decide

/-- A state that only copies is inside of an argument and counts nothing. -/
theorem base_inside {state : ArgState} (base : state = .unquoted ∨ state = .quoted) :
    state ≠ .outside ∧ ¬ state.isSlash := by
  rcases base with rfl | rfl <;> simp [ArgState.isSlash]

namespace ArgScan

/-- An argument is open inside of a token, and its bytes end with the backslashes of a sequence. -/
structure Ok (a : ArgScan) : Prop where
  closed : a.cur = none ↔ a.state = .outside
  slashes : a.state.isSlash → 1 ≤ a.slash ∧ ∃ s, a.cur = some s ∧ a.slash ≤ s.length

/-- The scan starts in order. -/
theorem ok_start : start.Ok where
  closed := by simp [start]
  slashes := by simp [start, ArgState.isSlash]

variable {a : ArgScan}

/-- Inside of an argument there is a current one. -/
theorem Ok.cur_eq (ok : a.Ok) (inside : a.state ≠ .outside) : ∃ s, a.cur = some s :=
  Option.ne_none_iff_exists'.mp fun none => inside (ok.closed.mp none)

/-- Between arguments there is no current one. -/
theorem Ok.cur_none (ok : a.Ok) (outside : a.state = .outside) : a.cur = none :=
  ok.closed.mpr outside

/-- What a move does to the arguments, to the text and to the invariant. -/
structure Moved (a next : ArgScan) (c : Nat) (move : ArgMove) : Prop where
  ok : next.Ok
  state : next.state = move.state
  slash : next.slash = move.slash
  retreat : ∀ s, a.cur = some s → move.retreat ≤ s.length
  still : a.cur = none → move.retreat = 0
  text : next.text = a.text.take (a.text.length - move.retreat) ++ move.out.bytes c
  done : next.done.take a.done.length = a.done
  args : next.args.length = if move.starts then a.args.length + 1 else a.args.length
  opens : move.starts → a.cur = none

/-- A move that stays in an argument changes the end of its bytes. -/
theorem moved_inside {move : ArgMove} {s : S8} (isOpen : a.cur = some s) (c : Nat)
    (stays : move.starts = false) (goesOn : move.out ≠ .terminator)
    (inside : move.state ≠ .outside) (room : move.retreat ≤ s.length)
    (slashes : move.state.isSlash →
      1 ≤ move.slash ∧ move.slash ≤ s.length - move.retreat + (move.out.bytes c).length) :
    Moved a (a.move c move) c move := by
  have next : a.move c move = ⟨move.state, move.slash, a.done,
      some (s.take (s.length - move.retreat) ++ move.out.bytes c)⟩ := by
    rw [ArgScan.move, stays, if_neg Bool.false_ne_true, isOpen]
    exact if_neg goesOn
  rw [next]
  constructor
  · constructor
    · simp [inside]
    · intro isSlash
      refine ⟨(slashes isSlash).1, _, rfl, ?_⟩
      rw [List.length_append, List.length_take_of_le (Nat.sub_le _ _)]
      exact (slashes isSlash).2
  · rfl
  · rfl
  · intro other same
    rw [isOpen] at same
    cases same
    exact room
  · intro none
    rw [isOpen] at none
    cases none
  · simp only [text, isOpen, Option.getD_some, List.length_append]
    rw [Nat.add_sub_assoc room, List.take_length_add_append, List.append_assoc]
  · exact List.take_length
  · simp only [args, isOpen, stays, Option.toList_some, List.length_append]
    rfl
  · intro starts
    rw [stays] at starts
    cases starts

/-- Every move of the program keeps the invariant. -/
theorem Ok.moved (ok : a.Ok) (c : Nat) {move : ArgMove} (kind : MoveKind a.state a.slash move) :
    Moved a (a.move c move) c move := by
  cases kind with
  | skips outside =>
      have isClosed := ok.cur_none outside
      have next : a.move c ⟨false, 0, .nothing, false, .outside, a.slash⟩ =
          ⟨.outside, a.slash, a.done, none⟩ := by
        simp [ArgScan.move, isClosed]
      rw [next]
      constructor
      · exact ⟨by simp, by simp [ArgState.isSlash]⟩
      · rfl
      · rfl
      · exact fun _ _ => Nat.zero_le _
      · exact fun _ => rfl
      · dsimp only
        rw [Nat.sub_zero, List.take_length]
        simp [text, isClosed, ArgOut.bytes]
      · exact List.take_length
      · simp [args, isClosed]
      · simp
  | @opens out next slash outside inside goesOn first =>
      have isClosed := ok.cur_none outside
      have opened : a.move c ⟨true, 0, out, false, next, slash⟩ =
          ⟨next, slash, a.done, some (out.bytes c)⟩ := by
        simp [ArgScan.move, goesOn]
      rw [opened]
      constructor
      · refine ⟨by simp [inside], ?_⟩
        intro isSlash
        obtain ⟨rfl, rfl⟩ := first isSlash
        exact ⟨Nat.le_refl 1, _, rfl, (encodeRune_length c).1⟩
      · rfl
      · rfl
      · exact fun _ _ => Nat.zero_le _
      · exact fun _ => rfl
      · dsimp only
        rw [Nat.sub_zero, List.take_length]
        simp [text, isClosed]
      · exact List.take_length
      · simp [args, isClosed]
      · exact fun _ => isClosed
  | closes inside =>
      obtain ⟨s, isOpen⟩ := ok.cur_eq inside
      have closed : a.move c ⟨false, 0, .terminator, false, .outside, a.slash⟩ =
          ⟨.outside, a.slash, a.done ++ [s], none⟩ := by
        simp [ArgScan.move, isOpen]
      rw [closed]
      constructor
      · exact ⟨by simp, by simp [ArgState.isSlash]⟩
      · rfl
      · rfl
      · exact fun _ _ => Nat.zero_le _
      · exact fun _ => rfl
      · dsimp only
        rw [Nat.sub_zero, List.take_length]
        simp [text, isOpen, ArgOut.bytes]
      · exact List.take_left
      · simp [args, isOpen]
      · simp
  | @copies out next slash inside inside' goesOn counts =>
      obtain ⟨s, isOpen⟩ := ok.cur_eq inside
      apply moved_inside isOpen c rfl goesOn inside' (Nat.zero_le _)
      intro isSlash
      dsimp only at isSlash ⊢
      obtain ⟨rfl, count⟩ := counts isSlash
      have written := (encodeRune_length c).1
      simp only [ArgOut.bytes]
      rcases count with rfl | ⟨before, rfl⟩
      · omega
      · obtain ⟨positive, s', same, enough⟩ := ok.slashes before
        rw [isOpen] at same
        cases same
        omega
  | @rewinds out reread next isSlash base goesOn either =>
      obtain ⟨positive, s, isOpen, enough⟩ := ok.slashes isSlash
      obtain ⟨inside, notSlash⟩ := base_inside base
      apply moved_inside isOpen c rfl goesOn inside (by dsimp only; omega)
      intro isSlash
      exact absurd isSlash notSlash
  | @rereads next inside later base =>
      obtain ⟨s, isOpen⟩ := ok.cur_eq inside
      obtain ⟨inside', notSlash⟩ := base_inside base
      apply moved_inside isOpen c rfl ArgOut.noConfusion inside' (Nat.zero_le _)
      intro isSlash
      exact absurd isSlash notSlash

/-- A turn moves as the table says. -/
theorem Ok.turn (ok : a.Ok) (c : Nat) : Moved a (a.turn c) c (argMove a.state a.slash c) :=
  ok.moved c (argMove_kind a.state a.slash c)

/-- A code point is read again by a state that reads no code point again, and only the cursor and
the state have changed by then. -/
theorem reread_once {c : Nat} (reread : (argMove a.state a.slash c).reread = true) :
    (argMove a.state a.slash c).out = .nothing ∧ (argMove a.state a.slash c).starts = false ∧
      (argMove a.state a.slash c).state ≠ .outside ∧ (a.state.isSlash ∨ a.state = .quotedExit) ∧
      ((argMove a.state a.slash c).state = .unquoted ∨ (argMove a.state a.slash c).state = .quoted) := by
  have kind := argMove_kind a.state a.slash c
  generalize argMove a.state a.slash c = move at reread kind
  cases kind with
  | rewinds isSlash base goesOn either =>
      exact ⟨either reread, rfl, (base_inside base).1, .inl isSlash, base⟩
  | rereads inside later base => exact ⟨rfl, rfl, (base_inside base).1, later, base⟩
  | _ => cases reread

/-- These states read nothing again. -/
theorem base_reads {state : ArgState} (base : state = .unquoted ∨ state = .quoted) (slash c : Nat) :
    (argMove state slash c).reread = false := by
  cases reread : (argMove state slash c).reread with
  | false => rfl
  | true =>
      have once := (reread_once (a := ⟨state, slash, [], none⟩) reread).2.2.2.1
      rcases base with rfl | rfl <;> simp [ArgState.isSlash] at once

/-- The step of a code point that is read again is the step of the state that reads it again. -/
theorem Ok.step_reread (ok : a.Ok) {c : Nat} (reread : (argMove a.state a.slash c).reread = true) :
    a.step c = (a.turn c).step c := by
  have base : (a.turn c).state = .unquoted ∨ (a.turn c).state = .quoted := by
    rw [(ok.turn c).state]
    exact (reread_once reread).2.2.2.2
  rw [step, if_pos reread, step, base_reads base, if_neg Bool.false_ne_true]

/-- A unit that is not read again takes one turn. -/
theorem step_read {c : Nat} (reads : (argMove a.state a.slash c).reread = false) :
    a.step c = a.turn c := by
  rw [step, reads, if_neg Bool.false_ne_true]

end ArgScan

end UConfig
