/-
This file gives the output of the Windows platform, which converts what it prints on a console.
-/

import UConfig.Program.Failure
import UConfig.Program.Wide

namespace UConfig

/-- What the system answers when it is offered units or bytes for this time. -/
structure Device where
  console : Nat → S16 → Bool
  file : Nat → S8 → Bool

/-- The buffer for units, with all units that have been offered to the console. -/
structure U16Buf where
  buf : S16
  err : Bool
  offered : List S16

/-- The number of units in the buffer. -/
def consoleCap : Nat := 256

/-- After an error nothing is offered to the console. -/
def flushConsole (device : Device) (b : U16Buf) : U16Buf :=
  if !b.err && b.buf.length != 0 then
    ⟨[], !device.console b.offered.length b.buf, b.offered ++ [b.buf]⟩
  else { b with buf := [] }

/-- A code point needs room for two units, and a write outside of the buffer is a fault. -/
def printC32 (device : Device) (b : U16Buf) (rune : Nat) : Except Stop U16Buf :=
  let b := if b.buf.length > consoleCap - 2 then flushConsole device b else b
  let units := utf16Encode rune
  if b.buf.length + units.length ≤ consoleCap then .ok { b with buf := b.buf ++ units }
  else .error .fault

/-- The code points of a string are printed one after the other. -/
def printRunes (device : Device) (b : U16Buf) (s : S8) : Except Stop U16Buf :=
  if s = [] then .ok b
  else do
    let state := utf8Decode s
    let b ← printC32 device b state.rune
    printRunes device b state.tail
termination_by s.length
decreasing_by exact utf8Decode_tail_lt s ‹_›

/-- A descriptor is a console or a file, and it remembers an error. -/
structure Handle where
  isConsole : Bool
  err : Bool
  units : List S16
  bytes : List S8

def newHandle (isConsole : Bool) : Handle := ⟨isConsole, false, [], []⟩

/-- No state of the decoder is kept between the calls. -/
def osWrite (device : Device) (handle : Handle) (s : S8) : Except Stop Handle :=
  if handle.err then .ok handle
  else if handle.isConsole then do
    let b ← printRunes device ⟨[], false, handle.units⟩ s
    let b := flushConsole device b
    return { handle with err := b.err, units := b.offered }
  else
    .ok { handle with
      err := !device.file handle.bytes.length s
      bytes := handle.bytes ++ [s] }

end UConfig
