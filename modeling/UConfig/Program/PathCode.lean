/-
This file gives the encoding of paths by bytes that no text contains.
-/

import UConfig.Program.S8

namespace UConfig

/-- Encode paths with illegal UTF-8 bytes. -/
def pathEncode (c : UInt8) : UInt8 :=
  if c = '\t'.toUInt8 then 0xf8
  else if c = '\n'.toUInt8 then 0xf9
  else if c = '\r'.toUInt8 then 0xfa
  else if c = ' '.toUInt8 then 0xfb
  else if c = '$'.toUInt8 then 0xfc
  else if c = '('.toUInt8 then 0xfd
  else if c = ')'.toUInt8 then 0xfe
  else c

def pathDecode (c : UInt8) : UInt8 :=
  if c = 0xf8 then '\t'.toUInt8
  else if c = 0xf9 then '\n'.toUInt8
  else if c = 0xfa then '\r'.toUInt8
  else if c = 0xfb then ' '.toUInt8
  else if c = 0xfc then '$'.toUInt8
  else if c = 0xfd then '('.toUInt8
  else if c = 0xfe then ')'.toUInt8
  else c

def s8PathEncode (s : S8) : S8 :=
  if s.any (fun c => pathEncode c != c) then s.map pathEncode else s

/-- The bytes that stand for other bytes in an encoded path. -/
def encodingByte (c : UInt8) : Bool := 0xf8 ≤ c && c ≤ 0xfe

/-- The copy is skipped only when it would change nothing. -/
theorem s8PathEncode_eq_map (s : S8) : s8PathEncode s = s.map pathEncode := by
  unfold s8PathEncode
  split
  case isTrue => rfl
  case isFalse same =>
    have fixed : ∀ c ∈ s, pathEncode c = c := by simpa using same
    exact ((List.map_congr_left fixed).trans (List.map_id s)).symm

/-- A byte that is no code comes back from its code. -/
theorem pathDecode_pathEncode : ∀ c, encodingByte c = false → pathDecode (pathEncode c) = c :=
  forall_byte (by decide +kernel)

/-- Encoded bytes are never whitespace and never start a reference. -/
theorem pathEncode_inert : ∀ c,
    whitespace (pathEncode c) = false ∧ pathEncode c ≠ '$'.toUInt8 :=
  forall_byte (by decide +kernel)

end UConfig
