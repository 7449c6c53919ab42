/-
This file gives the allocation of blocks, which are taken from the end of the arena.
-/

import Mathlib.Algebra.Group.Int.Defs
import UConfig.Program.Dequote

namespace UConfig

/-- The signed integers that can hold the distance of two pointers. -/
structure Iz where
  bits : Nat
  wide : 32 ≤ bits

def Iz.bound (iz : Iz) : Int := 2 ^ (iz.bits - 1)

def ensure (condition : Prop) [Decidable condition] : EStateM Stop Arena Unit :=
  if condition then return else throw .fault

/-- A result has to be in range, as signed integers must not overflow. -/
def Iz.check (iz : Iz) (x : Int) : EStateM Stop Arena Int := do
  ensure (-iz.bound ≤ x ∧ x < iz.bound)
  return x

/-- Some consecutive bytes of an arena, without what they hold. -/
structure Block where
  start : Nat
  len : Nat
  deriving DecidableEq

/-- The block is taken from the end of the arena, which the padding above it keeps aligned.
The arena is still there when the program is out of memory, as a jump out of it finds it. -/
def alloc (iz : Iz) (size count : Int) : EStateM Stop Arena Block := do
  ensure (size > 0)
  ensure (count ≥ 0)
  let a ← get
  let alignment : Int := (-(UInt32.ofInt size * UInt32.ofInt count) &&& 7).toNat
  let distance ← iz.check (a.finish - a.beg)
  let available ← iz.check (distance - alignment)
  if count > available.tdiv size then
    throw .outOfMemory
  else
    let total ← iz.check (size * count)
    let used ← iz.check (total + alignment)
    -- A pointer must not leave the arena.
    ensure (used ≤ distance)
    let finish := a.finish - used.toNat
    set { a with finish := finish }
    return ⟨finish, total.toNat⟩

/-- The length of the string is the number of its bytes. -/
def news8 (iz : Iz) (len : Int) : EStateM Stop Arena Block := do
  let block ← alloc iz 1 len
  return { block with len := len.toNat }

end UConfig
