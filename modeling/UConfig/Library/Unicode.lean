/-
This file gives the encodings of code points in bytes and in 16-bit units.
-/

import Mathlib.Data.Nat.Bitwise

namespace Unicode

/-- The generalized UTF-8 encoding also encodes surrogates. -/
def wtf8Bytes (n : Nat) : List UInt8 :=
  if n ≤ 0x7f then [UInt8.ofNat n]
  else if n ≤ 0x7ff then [UInt8.ofNat (n / 64 % 0x20 + 0xc0), UInt8.ofNat (n % 0x40 + 0x80)]
  else if n ≤ 0xffff then
    [UInt8.ofNat (n / 4096 % 0x10 + 0xe0), UInt8.ofNat (n / 64 % 0x40 + 0x80),
      UInt8.ofNat (n % 0x40 + 0x80)]
  else
    [UInt8.ofNat (n / 262144 % 0x08 + 0xf0), UInt8.ofNat (n / 4096 % 0x40 + 0x80),
      UInt8.ofNat (n / 64 % 0x40 + 0x80), UInt8.ofNat (n % 0x40 + 0x80)]

/-- The encoding of a character is its UTF-8 encoding. -/
theorem wtf8Bytes_toNat (c : Char) : wtf8Bytes c.toNat = String.utf8EncodeChar c := rfl

/-- A character outside of the basic plane is encoded as a pair of surrogates. -/
def utf16Units (c : Char) : List UInt16 :=
  if c.toNat < 0x10000 then [UInt16.ofNat c.toNat]
  else
    [UInt16.ofNat ((c.toNat - 0x10000) / 0x400 + 0xd800),
      UInt16.ofNat ((c.toNat - 0x10000) % 0x400 + 0xdc00)]

def isHighSurrogate (unit : UInt16) : Bool := 0xd800 ≤ unit.toNat && unit.toNat ≤ 0xdbff

def isLowSurrogate (unit : UInt16) : Bool := 0xdc00 ≤ unit.toNat && unit.toNat ≤ 0xdfff

/-- The code point of two surrogates. -/
def pairValue (high low : UInt16) : Nat :=
  0x10000 + (high.toNat - 0xd800) * 0x400 + (low.toNat - 0xdc00)

/-- The code points of any string of units, where an unpaired surrogate stands for itself. -/
def codePoints : List UInt16 → List Nat
  | [] => []
  | [unit] => [unit.toNat]
  | first :: second :: rest =>
      if isHighSurrogate first && isLowSurrogate second then
        pairValue first second :: codePoints rest
      else first.toNat :: codePoints (second :: rest)

/-- A unit that does not start a pair stands for itself. -/
theorem codePoints_cons {unit : UInt16} {rest : List UInt16}
    (single : isHighSurrogate unit = true → ∀ low ∈ rest.head?, isLowSurrogate low = false) :
    codePoints (unit :: rest) = unit.toNat :: codePoints rest := by
  cases rest with
  | nil => rfl
  | cons low rest =>
      have noPair : ¬ (isHighSurrogate unit && isLowSurrogate low) = true := by
        rw [Bool.and_eq_true]
        rintro ⟨high, isLow⟩
        rw [single high low rfl] at isLow
        cases isLow
      rw [codePoints, if_neg noPair]

/-- A unit of ASCII is no surrogate. -/
theorem ascii_single {unit : UInt16} (ascii : unit.toNat < 0x80) :
    isHighSurrogate unit = false ∧ isLowSurrogate unit = false := by
  simp only [isHighSurrogate, isLowSurrogate, Bool.and_eq_false_iff, decide_eq_false_iff_not]
  omega

/-- An ASCII unit is its own code point. -/
theorem codePoints_ascii {unit : UInt16} (ascii : unit.toNat < 0x80) (rest : List UInt16) :
    codePoints (unit :: rest) = unit.toNat :: codePoints rest := by
  apply codePoints_cons
  intro high
  rw [(ascii_single ascii).1] at high
  cases high

/-- Strings are decoded apart when no pair of surrogates lies across their border. -/
theorem codePoints_append (first : List UInt16) {second : List UInt16}
    (border : ∀ unit ∈ second.head?, isLowSurrogate unit = false) :
    codePoints (first ++ second) = codePoints first ++ codePoints second := by
  induction first using codePoints.induct with
  | case1 => rfl
  | case2 unit =>
      exact codePoints_cons fun _ => border
  | case3 high low rest pair ih =>
      rw [List.cons_append, List.cons_append, codePoints, codePoints, if_pos pair, if_pos pair, ih]
      rfl
  | case4 high low rest single ih =>
      rw [List.cons_append, List.cons_append, codePoints, codePoints, if_neg single, if_neg single,
        ← List.cons_append, ih]
      rfl

/-- A string has no more code points than units, and as many when it has no pair. -/
theorem length_codePoints (units : List UInt16) : (codePoints units).length < units.length ∨
    codePoints units = units.map UInt16.toNat := by
  induction units using codePoints.induct with
  | case1 => exact .inr rfl
  | case2 unit => exact .inr rfl
  | case3 high low rest pair ih =>
      rw [codePoints, if_pos pair]
      simp only [List.length_cons]
      rcases ih with fewer | same
      · omega
      · rw [same, List.length_map]
        omega
  | case4 high low rest single ih =>
      rw [codePoints, if_neg single, List.map_cons, List.length_cons, List.length_cons]
      rcases ih with fewer | same
      · exact .inl (Nat.succ_lt_succ fewer)
      · exact .inr (by rw [same])

/-- A code point is a unit or the value of a pair. -/
theorem mem_codePoints {units : List UInt16} {n : Nat} (inside : n ∈ codePoints units) :
    0x10000 ≤ n ∨ ∃ unit ∈ units, unit.toNat = n := by
  induction units using codePoints.induct with
  | case1 => cases inside
  | case2 unit => exact .inr ⟨unit, List.mem_singleton_self _, (List.mem_singleton.mp inside).symm⟩
  | case3 high low rest pair ih =>
      rw [codePoints, if_pos pair] at inside
      rcases List.mem_cons.mp inside with value | later
      · unfold pairValue at value
        omega
      · exact (ih later).imp_right fun ⟨unit, known, same⟩ =>
          ⟨unit, List.mem_cons_of_mem _ (List.mem_cons_of_mem _ known), same⟩
  | case4 unit second rest single ih =>
      rw [codePoints, if_neg single] at inside
      rcases List.mem_cons.mp inside with value | later
      · exact .inr ⟨unit, List.mem_cons_self, value.symm⟩
      · exact (ih later).imp_right fun ⟨unit, known, same⟩ =>
          ⟨unit, List.mem_cons_of_mem _ known, same⟩

/-- Code points end below 0x110000. -/
theorem codePoints_lt (units : List UInt16) : ∀ n ∈ codePoints units, n < 0x110000 := by
  have unitLt : ∀ unit : UInt16, unit.toNat < 0x110000 :=
    fun unit => unit.toNat_lt.trans (by decide)
  induction units using codePoints.induct with
  | case1 => simp [codePoints]
  | case2 unit => simpa [codePoints] using unitLt unit
  | case3 high low rest pair ih =>
      simp only [isHighSurrogate, isLowSurrogate, Bool.and_eq_true, decide_eq_true_eq] at pair
      have value : pairValue high low < 0x110000 := by
        unfold pairValue
        omega
      rw [codePoints]
      split
      case isTrue => exact List.forall_mem_cons.mpr ⟨value, ih⟩
      case isFalse single => simp [isHighSurrogate, isLowSurrogate, pair] at single
  | case4 high low rest single ih =>
      rw [codePoints, if_neg single]
      exact List.forall_mem_cons.mpr ⟨unitLt high, ih⟩

/-- The bytes of any string of units. -/
def wtf8 (units : List UInt16) : List UInt8 := (codePoints units).flatMap wtf8Bytes

end Unicode
