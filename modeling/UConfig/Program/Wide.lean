/-
This file gives the conversions between the byte strings of the program and wide strings.
Code points are never negative here, which the encoders of the source test for.
-/

import UConfig.Program.S8
import UConfig.Library.Transcode

namespace UConfig

open Transcode

abbrev S16 := List UInt16

def replacementCharacter : Nat := 0xfffd

/-- The result of decoding holds the code point and the rest of the string. -/
structure Decoded (Source : Type) where
  tail : List Source
  rune : Nat

def isContinuation (c : UInt8) : Bool := c &&& 0xc0 == 0x80

/-- A lone byte is a code point below the first continuation byte. -/
def utf8Case1 : S8 → Option (Decoded UInt8)
  | c :: tail => if c.toNat > 0x7f then none else some ⟨tail, c.toNat⟩
  | _ => none

def utf8Case2 : S8 → Option (Decoded UInt8)
  | c :: d :: tail =>
      let rune := ((c &&& 0x1f).toNat <<< 6) ||| (d &&& 0x3f).toNat
      if !isContinuation d then none
      else if rune < 0x80 then none
      else some ⟨tail, rune⟩
  | _ => none

def utf8Case3 : S8 → Option (Decoded UInt8)
  | c :: d :: e :: tail =>
      let rune := ((c &&& 0x0f).toNat <<< 12) ||| ((d &&& 0x3f).toNat <<< 6) |||
        (e &&& 0x3f).toNat
      if !isContinuation d then none
      else if !isContinuation e then none
      else if rune < 0x800 then none
      else if 0xd800 ≤ rune ∧ rune ≤ 0xdfff then none
      else some ⟨tail, rune⟩
  | _ => none

def utf8Case4 : S8 → Option (Decoded UInt8)
  | c :: d :: e :: f :: tail =>
      let rune := ((c &&& 0x0f).toNat <<< 18) ||| ((d &&& 0x3f).toNat <<< 12) |||
        ((e &&& 0x3f).toNat <<< 6) ||| (f &&& 0x3f).toNat
      if !isContinuation d then none
      else if !isContinuation e then none
      else if !isContinuation f then none
      else if rune < 0x10000 then none
      else if 0x10ffff < rune then none
      else some ⟨tail, rune⟩
  | _ => none

/-- The first byte selects the length, and a case that breaks off skips only this byte. -/
def utf8Decode (s : S8) : Decoded UInt8 :=
  let kind := s.headD 0 &&& 0xf0
  let decoded :=
    if kind = 0xc0 ∨ kind = 0xd0 then utf8Case2 s
    else if kind = 0xe0 then utf8Case3 s
    else if kind = 0xf0 then utf8Case4 s
    else utf8Case1 s
  decoded.getD ⟨s.drop 1, replacementCharacter⟩

/-- The bytes of a code point, which may be a surrogate. -/
def encodeRune (c : Nat) : S8 :=
  if c < 0x80 then [UInt8.ofNat c]
  else if c < 0x800 then
    [UInt8.ofNat (0xc0 ||| (c >>> 6)), UInt8.ofNat (0x80 ||| (c &&& 63))]
  else if c < 0x10000 then
    [UInt8.ofNat (0xe0 ||| (c >>> 12)), UInt8.ofNat (0x80 ||| ((c >>> 6) &&& 63)),
      UInt8.ofNat (0x80 ||| (c &&& 63))]
  else
    [UInt8.ofNat (0xf0 ||| (c >>> 18)), UInt8.ofNat (0x80 ||| ((c >>> 12) &&& 63)),
      UInt8.ofNat (0x80 ||| ((c >>> 6) &&& 63)), UInt8.ofNat (0x80 ||| (c &&& 63))]

/-- Surrogates and values that are too large are replaced. -/
def replaceInvalid (rune : Nat) : Nat :=
  if (0xd800 ≤ rune ∧ rune ≤ 0xdfff) ∨ 0x10ffff < rune then replacementCharacter else rune

def utf8Encode (rune : Nat) : S8 := encodeRune (replaceInvalid rune)

/-- An unpaired surrogate is rejected. -/
def utf16Decode (s : S16) : Decoded UInt16 :=
  let rune := (s.headD 0).toNat
  let reject : Decoded UInt16 := ⟨s.drop 1, replacementCharacter⟩
  if 0xdc00 ≤ rune ∧ rune ≤ 0xdfff then reject
  else if 0xd800 ≤ rune ∧ rune ≤ 0xdbff then
    match s with
    | _ :: second :: tail =>
        let lo := second.toNat
        if lo < 0xdc00 ∨ 0xdfff < lo then reject
        else ⟨tail, 0x10000 + ((rune - 0xd800) <<< 10) + (lo - 0xdc00)⟩
    | _ => reject
  else ⟨s.drop 1, rune⟩

def utf16Encode (rune : Nat) : S16 :=
  let rune := replaceInvalid rune
  if 0x10000 ≤ rune then
    let rune := rune - 0x10000
    [UInt16.ofNat ((rune >>> 10) + 0xd800), UInt16.ofNat ((rune &&& 0x3ff) + 0xdc00)]
  else [UInt16.ofNat rune]

/-- A case that does not break off takes at least one byte. -/
theorem utf8Case_tail_lt {s : S8} {decoded : Decoded UInt8}
    (found : utf8Case1 s = some decoded ∨ utf8Case2 s = some decoded ∨
      utf8Case3 s = some decoded ∨ utf8Case4 s = some decoded) :
    decoded.tail.length < s.length := by
  rcases found with found | found | found | found
  · unfold utf8Case1 at found
    grind
  · unfold utf8Case2 at found
    grind
  · unfold utf8Case3 at found
    grind
  · unfold utf8Case4 at found
    grind

/-- Each rune shortens the bytes. -/
theorem utf8Decode_tail_lt (s : S8) (nonempty : s ≠ []) :
    (utf8Decode s).tail.length < s.length := by
  have positive := List.length_pos_of_ne_nil nonempty
  have one : (s.drop 1).length < s.length := by
    rw [List.length_drop]
    omega
  have bounded : ∀ decoded : Option (Decoded UInt8),
      (∀ found, decoded = some found → found.tail.length < s.length) →
        (decoded.getD ⟨s.drop 1, replacementCharacter⟩).tail.length < s.length := by
    intro decoded shorter
    cases decoded with
    | none => exact one
    | some found => exact shorter found rfl
  apply bounded
  intro found isFound
  apply utf8Case_tail_lt
  split at isFound
  · exact .inr (.inl isFound)
  · split at isFound
    · exact .inr (.inr (.inl isFound))
    · split at isFound
      · exact .inr (.inr (.inr isFound))
      · exact .inl isFound

/-- Each rune shortens the units. -/
theorem utf16Decode_tail_lt (s : S16) (nonempty : s ≠ []) :
    (utf16Decode s).tail.length < s.length := by
  have positive := List.length_pos_of_ne_nil nonempty
  unfold utf16Decode
  grind

def utf8Decoder : Decoder Nat UInt8 where
  next s := ((utf8Decode s).rune, (utf8Decode s).tail)
  shorter := utf8Decode_tail_lt

def utf16Decoder : Decoder Nat UInt16 where
  next s := ((utf16Decode s).rune, (utf16Decode s).tail)
  shorter := utf16Decode_tail_lt

/-- A write outside of the buffer is a fault. -/
def toWide (s : S8) : Option (Filled UInt16) := utf8Decoder.convert utf16Encode 0 s

def fromWide (w : S16) : Option (Filled UInt8) := utf16Decoder.convert utf8Encode 0 w

end UConfig
