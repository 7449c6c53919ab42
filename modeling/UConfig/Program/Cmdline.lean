/-
This file gives the machine that splits a command line into arguments.
The pointers to the arguments and their bytes share one array.
-/

import UConfig.Program.Wide
import UConfig.Library.Loop
import UConfig.Library.Memory

namespace UConfig

/-- The most units of a command line, with its terminator. -/
def cmdlineCmdMax : Nat := 32767

/-- The size of a pointer in bytes. -/
structure PointerSize where
  bytes : Nat
  positive : 0 < bytes

def PointerSize.argvMax (P : PointerSize) : Nat := 16384 + (98298 + P.bytes) / P.bytes

/-- The size of the array in bytes. -/
def PointerSize.arraySize (P : PointerSize) : Nat := P.bytes * P.argvMax

/-- The byte buffer is the second half of the array. -/
def PointerSize.bufferStart (P : PointerSize) : Int := (16384 * P.bytes : Nat)

/-- A byte of the array is a byte of an argument or a byte of a pointer into the array. -/
inductive ArgvCell where
  | byte (b : UInt8)
  | pointer (target : Option Int) (index : Nat)

def byteCells (s : S8) : List ArgvCell := s.map .byte

/-- A pointer without a target is null. -/
def PointerSize.cells (P : PointerSize) (target : Option Int) : List ArgvCell :=
  (List.range P.bytes).map (.pointer target)

def PointerSize.storeBytes (P : PointerSize) (mem : Memory ArgvCell) (buf : Int) (s : S8) :
    Option (Memory ArgvCell) := mem.store P.arraySize buf (byteCells s)

/-- The pointer is stored as the array element with this index. -/
def PointerSize.storePointer (P : PointerSize) (mem : Memory ArgvCell) (index : Nat)
    (target : Option Int) : Option (Memory ArgvCell) :=
  mem.store P.arraySize (index * P.bytes : Nat) (P.cells target)

/-- The states have the numbers from zero to eight in the program. -/
inductive ArgState where
  | outside
  | unquoted
  | quoted
  | slashUnquoted
  | slashQuoted
  | quotedExit
  | begin
  | unquotedFirst
  | quotedFirst
  deriving DecidableEq

/-- What is written for a code point: nothing, the end of an argument, or the code point. -/
inductive ArgOut where
  | nothing
  | terminator
  | rune
  deriving DecidableEq

def ArgOut.bytes (c : Nat) : ArgOut → S8
  | nothing => []
  | terminator => [0]
  | rune => encodeRune c

/-- What a state does with a code point. A new argument starts at the cursor, the cursor goes back,
bytes are written, and the code point may be read again. -/
structure ArgMove where
  starts : Bool
  retreat : Nat
  out : ArgOut
  reread : Bool
  state : ArgState
  slash : Nat

def isBlank (c : Nat) : Bool := c == 0x09 || c == 0x20

/-- A backslash sequence in or outside of quotes goes back to this state. -/
def slashMove (state base : ArgState) (slash c : Nat) : ArgMove :=
  if c = 0x22 then
    if slash % 2 = 1 then ⟨false, (1 + slash) / 2, .rune, false, base, slash⟩
    else ⟨false, (1 + slash) / 2, .nothing, true, base, slash⟩
  else if c = 0x5c then ⟨false, 0, .rune, false, state, slash + 1⟩
  else ⟨false, 0, .nothing, true, base, slash⟩

def argMove (state : ArgState) (slash c : Nat) : ArgMove :=
  match state with
  | .outside =>
      if isBlank c then ⟨false, 0, .nothing, false, .outside, slash⟩
      else if c = 0x22 then ⟨true, 0, .nothing, false, .quoted, slash⟩
      else if c = 0x5c then ⟨true, 0, .rune, false, .slashUnquoted, 1⟩
      else ⟨true, 0, .rune, false, .unquoted, slash⟩
  | .unquoted =>
      if isBlank c then ⟨false, 0, .terminator, false, .outside, slash⟩
      else if c = 0x22 then ⟨false, 0, .nothing, false, .quoted, slash⟩
      else if c = 0x5c then ⟨false, 0, .rune, false, .slashUnquoted, 1⟩
      else ⟨false, 0, .rune, false, .unquoted, slash⟩
  | .quoted =>
      if c = 0x22 then ⟨false, 0, .nothing, false, .quotedExit, slash⟩
      else if c = 0x5c then ⟨false, 0, .rune, false, .slashQuoted, 1⟩
      else ⟨false, 0, .rune, false, .quoted, slash⟩
  | .slashUnquoted => slashMove .slashUnquoted .unquoted slash c
  | .slashQuoted => slashMove .slashQuoted .quoted slash c
  | .quotedExit =>
      if c = 0x22 then ⟨false, 0, .rune, false, .unquoted, slash⟩
      else ⟨false, 0, .nothing, true, .unquoted, slash⟩
  | .begin =>
      if isBlank c then ⟨false, 0, .terminator, false, .outside, slash⟩
      else if c = 0x22 then ⟨false, 0, .nothing, false, .quotedFirst, slash⟩
      else ⟨false, 0, .rune, false, .unquotedFirst, slash⟩
  | .unquotedFirst =>
      if isBlank c then ⟨false, 0, .terminator, false, .outside, slash⟩
      else ⟨false, 0, .rune, false, .unquotedFirst, slash⟩
  | .quotedFirst =>
      if c = 0x22 then ⟨false, 0, .terminator, false, .outside, slash⟩
      else ⟨false, 0, .rune, false, .quotedFirst, slash⟩

/-- The command line is what is left of it in front of its terminator. -/
structure ArgvMachine where
  cmd : S16
  argc : Nat
  state : ArgState
  slash : Nat
  buf : Int
  mem : Memory ArgvCell

/-- Two surrogates are read as one code point, and the terminator is no surrogate. -/
def nextRune : S16 → Option (Decoded UInt16)
  | [] => none
  | [unit] => some ⟨[], unit.toNat⟩
  | first :: second :: rest =>
      let c := first.toNat
      if c >>> 10 = 0x36 ∧ second.toNat >>> 10 = 0x37 then
        some ⟨rest, 0x10000 + ((c - 0xd800) <<< 10) + (second.toNat - 0xdc00)⟩
      else some ⟨second :: rest, c⟩

/-- The pointer to a new argument is the cursor. -/
def ArgvMachine.storeStart (P : PointerSize) (m : ArgvMachine) (starts : Bool) :
    Option (Memory ArgvCell) :=
  if starts then P.storePointer m.mem m.argc (some m.buf) else some m.mem

/-- A write outside of the array is a fault. -/
def ArgvMachine.apply (P : PointerSize) (m : ArgvMachine) (next : Decoded UInt16) (move : ArgMove) :
    Option ArgvMachine := do
  let mem ← m.storeStart P move.starts
  let argc := if move.starts then m.argc + 1 else m.argc
  let buf := m.buf - move.retreat
  let bytes := move.out.bytes next.rune
  let mem ← P.storeBytes mem buf bytes
  return {
    cmd := if move.reread then m.cmd else next.tail
    argc := argc
    state := move.state
    slash := move.slash
    buf := buf + bytes.length
    mem := mem }

structure ArgvResult where
  argc : Nat
  argv : Memory ArgvCell

/-- The last argument is terminated, and a null pointer follows the arguments. -/
def ArgvMachine.finish (P : PointerSize) (m : ArgvMachine) : Option ArgvResult := do
  let mem ← P.storeBytes m.mem m.buf [0]
  let mem ← P.storePointer mem m.argc none
  return ⟨m.argc, mem⟩

/-- One turn of the loop reads one code point. -/
def argvBody (P : PointerSize) (m : ArgvMachine) : ArgvMachine ⊕ Option ArgvResult :=
  match nextRune m.cmd with
  | none => .inr (m.finish P)
  | some next =>
      match m.apply P next (argMove m.state m.slash next.rune) with
      | none => .inr none
      | some m => .inl m

/-- The array may hold anything, and the first argument is there in any case. -/
def argvStart (P : PointerSize) (argv : Memory ArgvCell) (cmd : S16) : ArgvMachine where
  cmd := cmd
  argc := 1
  state := .begin
  slash := 0
  buf := P.bufferStart
  mem := argv.write 0 (P.cells (some P.bufferStart))

/-- The split ends with this number of arguments and this array. -/
def CmdlineToArgv8 (P : PointerSize) (argv : Memory ArgvCell) (cmd : S16) (result : ArgvResult) :
    Prop := Loop.Ends (argvBody P) (argvStart P argv cmd) (some result)

/-- A command line without its terminator. -/
structure CommandLine where
  units : S16
  nonzero : 0 ∉ units
  short : units.length < cmdlineCmdMax

end UConfig
