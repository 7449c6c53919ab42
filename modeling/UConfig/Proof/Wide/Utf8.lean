/-
This file proves that the UTF-8 decoder and encoder of the program are those of the standard.
-/

import UConfig.Program.Wide
import UConfig.Library.Unicode

namespace UConfig

open Unicode

/-- The mask keeps the lower four bits. -/
theorem byte_low4 : ∀ c : UInt8, (c &&& 0x0f).toNat = c.toNat % 16 :=
  fun c => Nat.and_two_pow_sub_one_eq_mod c.toNat 4

/-- The mask keeps the lower five bits. -/
theorem byte_low5 : ∀ c : UInt8, (c &&& 0x1f).toNat = c.toNat % 32 :=
  fun c => Nat.and_two_pow_sub_one_eq_mod c.toNat 5

/-- The mask keeps the lower six bits. -/
theorem byte_low6 : ∀ c : UInt8, (c &&& 0x3f).toNat = c.toNat % 64 :=
  fun c => Nat.and_two_pow_sub_one_eq_mod c.toNat 6

/-- Continuation bytes are those from 128 to 191. -/
theorem isContinuation_iff : ∀ c, isContinuation c = true ↔ 128 ≤ c.toNat ∧ c.toNat < 192 :=
  forall_byte (by decide +kernel)

/-- The high bits of the first byte are a range of its values. -/
theorem byte_kind : ∀ c : UInt8,
    (c &&& 0xf0 = 0xc0 ∨ c &&& 0xf0 = 0xd0 ↔ 192 ≤ c.toNat ∧ c.toNat < 224) ∧
    (c &&& 0xf0 = 0xe0 ↔ 224 ≤ c.toNat ∧ c.toNat < 240) ∧ (c &&& 0xf0 = 0xf0 ↔ 240 ≤ c.toNat) :=
  forall_byte (by decide +kernel)

/-- Six low bits are added to the bits above them. -/
theorem shift_or (high : Nat) {low : Nat} (small : low < 64) : high <<< 6 ||| low = high * 64 + low := by
  rw [← Nat.shiftLeft_add_eq_or_of_lt small, Nat.shiftLeft_eq]

theorem shift_or_shift (high low shift : Nat) :
    high <<< (shift + 6) ||| low <<< shift = (high <<< 6 ||| low) <<< shift := by
  rw [Nat.shiftLeft_or_distrib, ← Nat.shiftLeft_add, Nat.add_comm shift 6]

/-- The bits below a prefix of ones are added to it. -/
theorem or_add {width low : Nat} (high : Nat) (small : low < 2 ^ width) :
    2 ^ width * high ||| low = low + 2 ^ width * high := by
  rw [← Nat.two_pow_add_eq_or_of_lt small, Nat.add_comm]

/-- One byte decodes to itself. -/
theorem utf8Case1_eq (c : UInt8) (tail : S8) :
    utf8Case1 (c :: tail) = if c.toNat < 128 then some ⟨tail, c.toNat⟩ else none := by
  rw [utf8Case1]
  split <;> split <;> first | rfl | omega

/-- Two bytes decode when the value needs both. -/
theorem utf8Case2_eq (c d : UInt8) (tail : S8) :
    utf8Case2 (c :: d :: tail) =
      if isContinuation d = true ∧ 0x80 ≤ c.toNat % 32 * 64 + d.toNat % 64 then
        some ⟨tail, c.toNat % 32 * 64 + d.toNat % 64⟩
      else none := by
  have rune : (c &&& 0x1f).toNat <<< 6 ||| (d &&& 0x3f).toNat =
      c.toNat % 32 * 64 + d.toNat % 64 := by
    rw [byte_low5, byte_low6, shift_or _ (Nat.mod_lt _ (by decide))]
  rw [utf8Case2, rune]
  cases isContinuation d with
  | false => simp
  | true => simp only [Bool.not_true, Bool.false_eq_true, if_false, true_and, ← not_lt, ite_not]

/-- Three bytes decode when the value needs them and is no surrogate. -/
theorem utf8Case3_eq (c d e : UInt8) (tail : S8) :
    utf8Case3 (c :: d :: e :: tail) =
      if isContinuation d = true ∧ isContinuation e = true ∧
          0x800 ≤ (c.toNat % 16 * 64 + d.toNat % 64) * 64 + e.toNat % 64 ∧
          ((c.toNat % 16 * 64 + d.toNat % 64) * 64 + e.toNat % 64).isValidChar then
        some ⟨tail, (c.toNat % 16 * 64 + d.toNat % 64) * 64 + e.toNat % 64⟩
      else none := by
  have rune : (c &&& 0x0f).toNat <<< 12 ||| (d &&& 0x3f).toNat <<< 6 ||| (e &&& 0x3f).toNat =
      (c.toNat % 16 * 64 + d.toNat % 64) * 64 + e.toNat % 64 := by
    rw [byte_low4, byte_low6, byte_low6, shift_or_shift _ _ 6,
      shift_or _ (Nat.mod_lt _ (by decide)), shift_or _ (Nat.mod_lt _ (by decide))]
  have small : (c.toNat % 16 * 64 + d.toNat % 64) * 64 + e.toNat % 64 < 0x10000 := by omega
  rw [utf8Case3, rune]
  generalize (c.toNat % 16 * 64 + d.toNat % 64) * 64 + e.toNat % 64 = n at small
  cases isContinuation d with
  | false => simp
  | true =>
      cases isContinuation e with
      | false => simp
      | true =>
          simp only [Bool.not_true, Bool.false_eq_true, if_false, true_and, Nat.isValidChar]
          split <;> split <;> first | rfl | omega | (split <;> first | rfl | omega)

/-- Four bytes decode when the value needs them and is a code point. -/
theorem utf8Case4_eq (c d e f : UInt8) (tail : S8) :
    utf8Case4 (c :: d :: e :: f :: tail) =
      if isContinuation d = true ∧ isContinuation e = true ∧
          isContinuation f = true ∧
          0x10000 ≤ ((c.toNat % 16 * 64 + d.toNat % 64) * 64 + e.toNat % 64) * 64 + f.toNat % 64 ∧
          (((c.toNat % 16 * 64 + d.toNat % 64) * 64 + e.toNat % 64) * 64 +
            f.toNat % 64).isValidChar then
        some ⟨tail, ((c.toNat % 16 * 64 + d.toNat % 64) * 64 + e.toNat % 64) * 64 + f.toNat % 64⟩
      else none := by
  have rune : (c &&& 0x0f).toNat <<< 18 ||| (d &&& 0x3f).toNat <<< 12 |||
      (e &&& 0x3f).toNat <<< 6 ||| (f &&& 0x3f).toNat =
      ((c.toNat % 16 * 64 + d.toNat % 64) * 64 + e.toNat % 64) * 64 + f.toNat % 64 := by
    rw [byte_low4, byte_low6, byte_low6, byte_low6, shift_or_shift _ _ 12,
      shift_or_shift _ _ 6, shift_or _ (Nat.mod_lt _ (by decide)),
      shift_or _ (Nat.mod_lt _ (by decide)), shift_or _ (Nat.mod_lt _ (by decide))]
  rw [utf8Case4, rune]
  generalize ((c.toNat % 16 * 64 + d.toNat % 64) * 64 + e.toNat % 64) * 64 + f.toNat % 64 = n
  cases isContinuation d with
  | false => simp
  | true =>
      cases isContinuation e with
      | false => simp
      | true =>
          cases isContinuation f with
          | false => simp
          | true =>
              simp only [Bool.not_true, Bool.false_eq_true, if_false, true_and, Nat.isValidChar]
              split <;> split <;> first | rfl | omega | (split <;> first | rfl | omega)

/-- The first byte selects one of the four cases. -/
theorem utf8Decode_cons (c : UInt8) (s : S8) :
    utf8Decode (c :: s) =
      (if 192 ≤ c.toNat ∧ c.toNat < 224 then utf8Case2 (c :: s)
        else if 224 ≤ c.toNat ∧ c.toNat < 240 then utf8Case3 (c :: s)
        else if 240 ≤ c.toNat then utf8Case4 (c :: s)
        else utf8Case1 (c :: s)).getD ⟨s, replacementCharacter⟩ := by
  obtain ⟨two, three, four⟩ := byte_kind c
  simp only [utf8Decode, List.headD_cons, two, three, four, List.drop_one, List.tail_cons]

/-- A small number fits a byte. -/
theorem toNat_byte {n : Nat} (small : n < 256) : (UInt8.ofNat n).toNat = n :=
  UInt8.toNat_ofNat_of_lt' small

/-- The bytes of a code point are read back. -/
theorem utf8Decode_wtf8Bytes {n : Nat} (valid : n.isValidChar) (rest : S8) :
    utf8Decode (wtf8Bytes n ++ rest) = ⟨rest, n⟩ := by
  have bounded : n < 0x110000 := by
    rw [Nat.isValidChar] at valid
    omega
  rw [wtf8Bytes]
  split
  case isTrue one =>
    have first : (UInt8.ofNat n).toNat = n := toNat_byte (by omega)
    rw [List.singleton_append, utf8Decode_cons, utf8Case1_eq, first, if_neg (by omega),
      if_neg (by omega), if_neg (by omega), if_pos (by omega)]
    rfl
  case isFalse more =>
    split
    case isTrue two =>
      have first : (UInt8.ofNat (n / 64 % 0x20 + 0xc0)).toNat = n / 64 % 0x20 + 0xc0 :=
        toNat_byte (by omega)
      have second : (UInt8.ofNat (n % 0x40 + 0x80)).toNat = n % 0x40 + 0x80 :=
        toNat_byte (by omega)
      have value : (n / 64 % 0x20 + 0xc0) % 32 * 64 + (n % 0x40 + 0x80) % 64 = n := by omega
      rw [List.cons_append, List.singleton_append, utf8Decode_cons, utf8Case2_eq, first, second,
        value, if_pos (by omega), if_pos ⟨(isContinuation_iff _).mpr (by omega), by omega⟩]
      rfl
    case isFalse more =>
      split
      case isTrue three =>
        have first : (UInt8.ofNat (n / 4096 % 0x10 + 0xe0)).toNat = n / 4096 % 0x10 + 0xe0 :=
          toNat_byte (by omega)
        have second : (UInt8.ofNat (n / 64 % 0x40 + 0x80)).toNat = n / 64 % 0x40 + 0x80 :=
          toNat_byte (by omega)
        have third : (UInt8.ofNat (n % 0x40 + 0x80)).toNat = n % 0x40 + 0x80 :=
          toNat_byte (by omega)
        have value : ((n / 4096 % 0x10 + 0xe0) % 16 * 64 + (n / 64 % 0x40 + 0x80) % 64) * 64 +
            (n % 0x40 + 0x80) % 64 = n := by omega
        rw [List.cons_append, List.cons_append, List.singleton_append, utf8Decode_cons, utf8Case3_eq,
          first, second, third, value, if_neg (by omega), if_pos (by omega),
          if_pos ⟨(isContinuation_iff _).mpr (by omega), (isContinuation_iff _).mpr (by omega),
            by omega, valid⟩]
        rfl
      case isFalse four =>
        have first : (UInt8.ofNat (n / 262144 % 0x08 + 0xf0)).toNat = n / 262144 % 0x08 + 0xf0 :=
          toNat_byte (by omega)
        have second : (UInt8.ofNat (n / 4096 % 0x40 + 0x80)).toNat = n / 4096 % 0x40 + 0x80 :=
          toNat_byte (by omega)
        have third : (UInt8.ofNat (n / 64 % 0x40 + 0x80)).toNat = n / 64 % 0x40 + 0x80 :=
          toNat_byte (by omega)
        have fourth : (UInt8.ofNat (n % 0x40 + 0x80)).toNat = n % 0x40 + 0x80 :=
          toNat_byte (by omega)
        have value : (((n / 262144 % 0x08 + 0xf0) % 16 * 64 + (n / 4096 % 0x40 + 0x80) % 64) * 64 +
            (n / 64 % 0x40 + 0x80) % 64) * 64 + (n % 0x40 + 0x80) % 64 = n := by omega
        rw [List.cons_append, List.cons_append, List.cons_append, List.singleton_append,
          utf8Decode_cons, utf8Case4_eq, first, second, third, fourth, value, if_neg (by omega),
          if_neg (by omega), if_pos (by omega), if_pos ⟨(isContinuation_iff _).mpr (by omega),
            (isContinuation_iff _).mpr (by omega), (isContinuation_iff _).mpr (by omega), by omega, valid⟩]
        rfl

theorem ofNat_eq_byte {n : Nat} (c : UInt8) (value : n = c.toNat) : UInt8.ofNat n = c := by
  rw [value, UInt8.ofNat_toNat]

/-- A case that does not break off has found the bytes of its code point. -/
theorem utf8Case1_some {c : UInt8} {s : S8} {decoded : Decoded UInt8}
    (found : utf8Case1 (c :: s) = some decoded) :
    decoded.rune.isValidChar ∧ c :: s = wtf8Bytes decoded.rune ++ decoded.tail := by
  rw [utf8Case1_eq] at found
  split at found
  · cases found
    dsimp only
    refine ⟨.inl (by omega), ?_⟩
    rw [wtf8Bytes, if_pos (by omega), ofNat_eq_byte c rfl, List.singleton_append]
  · cases found

/-- Two bytes that decode are the encoding of their rune. -/
theorem utf8Case2_some {c : UInt8} {s : S8} {decoded : Decoded UInt8}
    (first : 192 ≤ c.toNat ∧ c.toNat < 224) (found : utf8Case2 (c :: s) = some decoded) :
    decoded.rune.isValidChar ∧ c :: s = wtf8Bytes decoded.rune ++ decoded.tail := by
  match s with
  | [] => cases found
  | d :: tail =>
      rw [utf8Case2_eq] at found
      split at found
      case isTrue fits =>
        cases found
        simp only [isContinuation_iff] at fits
        dsimp only
        refine ⟨.inl (by omega), ?_⟩
        rw [wtf8Bytes, if_neg (by omega), if_pos (by omega), ofNat_eq_byte c (by omega),
          ofNat_eq_byte d (by omega)]
        rfl
      case isFalse => cases found

/-- Three bytes that decode are the encoding of their rune. -/
theorem utf8Case3_some {c : UInt8} {s : S8} {decoded : Decoded UInt8}
    (first : 224 ≤ c.toNat ∧ c.toNat < 240) (found : utf8Case3 (c :: s) = some decoded) :
    decoded.rune.isValidChar ∧ c :: s = wtf8Bytes decoded.rune ++ decoded.tail := by
  match s with
  | [] => cases found
  | [d] => cases found
  | d :: e :: tail =>
      rw [utf8Case3_eq] at found
      split at found
      case isTrue fits =>
        cases found
        simp only [isContinuation_iff] at fits
        dsimp only
        refine ⟨fits.2.2.2, ?_⟩
        rw [wtf8Bytes, if_neg (by omega), if_neg (by omega), if_pos (by omega),
          ofNat_eq_byte c (by omega), ofNat_eq_byte d (by omega), ofNat_eq_byte e (by omega)]
        rfl
      case isFalse => cases found

/-- Four bytes that decode are the encoding of their rune. -/
theorem utf8Case4_some {c : UInt8} {s : S8} {decoded : Decoded UInt8} (first : 240 ≤ c.toNat)
    (found : utf8Case4 (c :: s) = some decoded) :
    decoded.rune.isValidChar ∧ c :: s = wtf8Bytes decoded.rune ++ decoded.tail := by
  match s with
  | [] => cases found
  | [d] => cases found
  | [d, e] => cases found
  | d :: e :: f :: tail =>
      rw [utf8Case4_eq] at found
      split at found
      case isTrue fits =>
        cases found
        simp only [isContinuation_iff] at fits
        dsimp only
        have valid := fits.2.2.2.2
        have byte := c.toNat_lt
        refine ⟨valid, ?_⟩
        rw [Nat.isValidChar] at valid
        rw [wtf8Bytes, if_neg (by omega), if_neg (by omega), if_neg (by omega),
          ofNat_eq_byte c (by omega), ofNat_eq_byte d (by omega), ofNat_eq_byte e (by omega),
          ofNat_eq_byte f (by omega)]
        rfl
      case isFalse => cases found

/-- The decoder finds the bytes of a code point, or it skips one byte. -/
theorem utf8Decode_cases (c : UInt8) (s : S8) :
    (∃ n, n.isValidChar ∧ c :: s = wtf8Bytes n ++ (utf8Decode (c :: s)).tail) ∨
      utf8Decode (c :: s) = ⟨s, replacementCharacter⟩ := by
  rw [utf8Decode_cons]
  have found : ∀ decoded : Option (Decoded UInt8), (∀ value, decoded = some value →
      value.rune.isValidChar ∧ c :: s = wtf8Bytes value.rune ++ value.tail) →
      (∃ n, n.isValidChar ∧
        c :: s = wtf8Bytes n ++ (decoded.getD ⟨s, replacementCharacter⟩).tail) ∨
        decoded.getD ⟨s, replacementCharacter⟩ = ⟨s, replacementCharacter⟩ := by
    intro decoded bytes
    cases decoded with
    | none => exact .inr rfl
    | some value => exact .inl ⟨value.rune, bytes value rfl⟩
  apply found
  intro value isValue
  split at isValue
  case isTrue two => exact utf8Case2_some two isValue
  case isFalse =>
    split at isValue
    case isTrue three => exact utf8Case3_some three isValue
    case isFalse =>
      split at isValue
      case isTrue four => exact utf8Case4_some four isValue
      case isFalse => exact utf8Case1_some isValue

/-- The encoder of the program writes the bytes of every code point. -/
theorem encodeRune_eq {n : Nat} (bounded : n < 0x110000) : encodeRune n = wtf8Bytes n := by
  have low : ∀ k, 0x80 ||| (k &&& 63) = k % 0x40 + 0x80 := by
    intro k
    have small : k % 0x40 < 2 ^ 6 := Nat.mod_lt k (by decide)
    rw [Nat.and_two_pow_sub_one_eq_mod k 6]
    exact or_add 2 small
  rw [encodeRune, wtf8Bytes]
  simp only [low, Nat.shiftRight_eq_div_pow]
  simp only [← Nat.lt_add_one_iff, Nat.reduceAdd]
  by_cases one : n < 0x80
  · rw [if_pos one, if_pos one]
  rw [if_neg one, if_neg one]
  by_cases two : n < 0x800
  · have small : n / 64 < 0x20 := by omega
    have first : 0xc0 ||| n / 2 ^ 6 = n / 64 % 0x20 + 0xc0 := by
      rw [Nat.mod_eq_of_lt small]
      exact or_add 6 (show n / 64 < 2 ^ 5 from small)
    rw [if_pos two, if_pos two, first]
  rw [if_neg two, if_neg two]
  by_cases three : n < 0x10000
  · have small : n / 4096 < 0x10 := by omega
    have first : 0xe0 ||| n / 2 ^ 12 = n / 4096 % 0x10 + 0xe0 := by
      rw [Nat.mod_eq_of_lt small]
      exact or_add 14 (show n / 4096 < 2 ^ 4 from small)
    rw [if_pos three, if_pos three, first]
  · have small : n / 262144 < 0x08 := by omega
    have first : 0xf0 ||| n / 2 ^ 18 = n / 262144 % 0x08 + 0xf0 := by
      rw [Nat.mod_eq_of_lt small]
      exact or_add 30 (show n / 262144 < 2 ^ 3 from small)
    rw [if_neg three, if_neg three, first]

end UConfig
