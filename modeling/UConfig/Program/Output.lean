/-
This file gives the output buffers, whose flush writes, ends the program or discards.
-/

import UConfig.Program.Dequote
import UConfig.Library.Loop

namespace UConfig

/-- The bytes are the part of the buffer that is filled.
The descriptor is zero for a memory buffer and negative for one that discards its output. -/
structure U8Buf where
  buf : S8
  cap : Nat
  fd : Int

/-- A buffer and what has been written to its descriptor so far. -/
structure Output where
  b : U8Buf
  written : List S8

namespace Output

def newFdBuf (fd : Int) (cap : Nat) : Output := ⟨⟨[], cap, fd⟩, []⟩

def newNullOut : Output := ⟨⟨[], 0, -1⟩, []⟩

def newMemBuf (perm : Arena) : Output := ⟨⟨[], perm.finish - perm.beg, 0⟩, []⟩

/-- A buffer that is not a memory buffer fails an assertion. -/
def finalize (out : Output) (perm : Arena) : Except Stop (S8 × Arena) :=
  if out.b.fd ≠ 0 then .error .fault
  else .ok (out.b.buf, { perm with beg := perm.beg + out.b.buf.length })

/-- A memory buffer is only flushed when it is full, and then the program is out of memory. -/
def flush (out : Output) : Except Stop Output :=
  if out.b.fd = -1 then .ok { out with b := { out.b with buf := [] } }
  else if out.b.fd = 0 then .error .outOfMemory
  else
    let written := if out.b.buf.length ≠ 0 then out.written ++ [out.b.buf] else out.written
    .ok ⟨{ out.b with buf := [] }, written⟩

structure PrintState where
  out : Output
  off : Nat

/-- One turn copies as many bytes as the buffer has room for, and a negative count fails an
assertion. -/
def printBody (s : S8) (state : PrintState) : PrintState ⊕ Except Stop Output :=
  if state.off < s.length then
    let b := state.out.b
    let avail : Int := b.cap - b.buf.length
    let count : Int := if avail < s.length - state.off then avail else s.length - state.off
    if count < 0 then .inr (.error .fault)
    else
      let b := { b with buf := b.buf ++ (s.drop state.off).take count.toNat }
      let off := state.off + count.toNat
      if b.buf.length = b.cap then
        match flush { state.out with b := b } with
        | .error stop => .inr (.error stop)
        | .ok out => .inl ⟨out, off⟩
      else .inl ⟨{ state.out with b := b }, off⟩
  else .inr (.ok state.out)

/-- The fuel bounds the number of turns. -/
def printS8 (fuel : Nat) (out : Output) (s : S8) : Option (Except Stop Output) :=
  if out.b.fd = -1 then some (.ok out) else Loop.run (printBody s) fuel ⟨out, 0⟩

def printU8 (fuel : Nat) (out : Output) (c : UInt8) : Option (Except Stop Output) :=
  printS8 fuel out [c]

end Output

end UConfig
