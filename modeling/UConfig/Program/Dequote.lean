/-
This file gives the arena, its memory buffers and the function that takes one argument of a field.
-/

import UConfig.Program.PathCode
import UConfig.Program.Failure

namespace UConfig

/-- Memory buffers grow from the beginning of the arena. -/
structure Arena where
  beg : Nat
  finish : Nat

/-- The bytes printed to a memory buffer and the room that the arena had for it. -/
structure MemBuf where
  buf : S8
  cap : Nat

def newMemBuf (perm : Arena) : MemBuf := ⟨[], perm.finish - perm.beg⟩

/-- A memory buffer that gets full is flushed, and then the program is out of memory. -/
def MemBuf.printU8 (b : MemBuf) (c : UInt8) : Except Stop MemBuf :=
  if b.buf.length + 1 < b.cap then .ok { b with buf := b.buf ++ [c] } else .error .outOfMemory

/-- The arena keeps the bytes of the buffer. -/
def MemBuf.finalize (b : MemBuf) (perm : Arena) : S8 × Arena :=
  (b.buf, { perm with beg := perm.beg + b.buf.length })

/-- A failed result has an empty argument and an empty tail. -/
structure Dequoted where
  arg : S8
  tail : S8
  ok : Bool
  deriving DecidableEq

/-- These bytes have a meaning for the shell or stand for bytes that have one. -/
def shellMeta (c : UInt8) : Bool :=
  (S "\"!#%&'*<>?[\\]`\x7b|\x7d").any fun m => m == c || pathDecode c != c

/-- The quote is zero outside of quotes. -/
structure Quoting where
  quote : UInt8
  escaped : Bool
  deriving DecidableEq

def Quoting.start : Quoting := ⟨0, false⟩

/-- All whitespace is treated as a space. -/
def asSpace (b : UInt8) : UInt8 := if whitespace b then ' '.toUInt8 else b

/-- The bytes that one byte prints and the state after it, unless the byte ends the argument. -/
def dequoteByte (q : Quoting) (b : UInt8) : Option (S8 × Quoting) :=
  let c := asSpace b
  let decoded := pathDecode c
  if q.quote = '\''.toUInt8 then
    if c = '\''.toUInt8 then some ([], { q with quote := 0 })
    else if c = ' '.toUInt8 ∨ shellMeta c then some (['\\'.toUInt8, decoded], q)
    else some ([decoded], q)
  else if q.quote = '\"'.toUInt8 then
    if q.escaped then
      let escapes :=
        if c ≠ '\\'.toUInt8 ∧ c ≠ '\"'.toUInt8 then
          if c = ' '.toUInt8 ∨ shellMeta c then S "\\\\" else S "\\"
        else []
      some (escapes ++ [decoded], { q with escaped := false })
    else if c = '\"'.toUInt8 then some ([], { q with quote := 0 })
    else if c = ' '.toUInt8 ∨ shellMeta c then some (['\\'.toUInt8, decoded], q)
    else some ([decoded], { q with escaped := c == '\\'.toUInt8 })
  else if c = '\''.toUInt8 ∨ c = '\"'.toUInt8 then some ([], { q with quote := c })
  else if shellMeta c then some (['\\'.toUInt8, decoded], q)
  else if c = ' '.toUInt8 then none
  else some ([c], q)

structure DequoteScan where
  printed : S8
  quoting : Quoting
  tail : S8

/-- The scan goes on to the first unquoted whitespace. -/
def dequoteScan (q : Quoting) : S8 → DequoteScan
  | [] => ⟨[], q, []⟩
  | b :: s =>
      match dequoteByte q b with
      | none => ⟨[], q, b :: s⟩
      | some (bytes, q) =>
          let rest := dequoteScan q s
          { rest with printed := bytes ++ rest.printed }

def dequoteToken (s : S8) : DequoteScan := dequoteScan .start (s.dropWhile whitespace)

/-- An argument with an open quote is a failure. -/
def DequoteScan.result (scan : DequoteScan) : Dequoted :=
  if scan.quoting.quote ≠ 0 then ⟨[], [], false⟩ else ⟨scan.printed, scan.tail, true⟩

/-- Process the next token, and return it and the unprocessed remainder.
A failure takes back what it used of the arena. -/
def dequote (s : S8) (perm : Arena) : Except Stop (Dequoted × Arena) := do
  let scan := dequoteToken s
  let mem ← scan.printed.foldlM MemBuf.printU8 (newMemBuf perm)
  if scan.quoting.quote ≠ 0 then return (scan.result, perm)
  else return (scan.result, (mem.finalize perm).2)

/-- Printing succeeds exactly when it leaves some of the arena free. -/
theorem foldlM_printU8 (bytes : S8) (mem : MemBuf) :
    bytes.foldlM MemBuf.printU8 mem =
      if bytes = [] ∨ mem.buf.length + bytes.length < mem.cap then
        .ok { mem with buf := mem.buf ++ bytes }
      else .error .outOfMemory := by
  induction bytes generalizing mem with
  | nil => simp [pure, Except.pure]
  | cons c bytes ih =>
      rw [List.foldlM_cons, MemBuf.printU8]
      by_cases first : mem.buf.length + 1 < mem.cap
      · rw [if_pos first]
        change bytes.foldlM MemBuf.printU8 { mem with buf := mem.buf ++ [c] } = _
        rw [ih]
        by_cases fits : mem.buf.length + (c :: bytes).length < mem.cap
        · have inner : bytes = [] ∨ (mem.buf ++ [c]).length + bytes.length < mem.cap := by
            right
            simp only [List.length_append, List.length_cons, List.length_nil] at fits ⊢
            omega
          rw [if_pos inner, if_pos (.inr fits), List.append_assoc, List.singleton_append]
        · have inner : ¬ (bytes = [] ∨ (mem.buf ++ [c]).length + bytes.length < mem.cap) := by
            rintro (rfl | inside)
            · exact fits first
            · simp only [List.length_append, List.length_cons, List.length_nil] at fits inside
              omega
          rw [if_neg inner, if_neg (by simpa using fits)]
      · have full : ¬ (c :: bytes = [] ∨ mem.buf.length + (c :: bytes).length < mem.cap) := by
          simp only [List.length_cons, reduceCtorEq, false_or]
          omega
        rw [if_neg first, if_neg full]
        rfl

end UConfig
