/-
This file proves that the wide strings of the program are a faithful second form of its byte strings.
-/

import UConfig.Proof.Wide.Utf8

namespace UConfig

open Transcode Unicode

/-- A valid code point is a character. -/
theorem exists_char {n : Nat} (valid : n.isValidChar) : ∃ c : Char, c.toNat = n :=
  ⟨Char.ofNatAux n valid, rfl⟩

/-- No character is a surrogate. -/
theorem char_bounded (c : Char) :
    c.toNat < 0x110000 ∧ ¬ (0xd800 ≤ c.toNat ∧ c.toNat ≤ 0xdfff) := by
  have valid : c.toNat.isValidChar := c.valid
  rw [Nat.isValidChar] at valid
  omega

/-- Characters are never replaced by the encoders. -/
theorem replaceInvalid_toNat (c : Char) : replaceInvalid c.toNat = c.toNat := by
  obtain ⟨bounded, outside⟩ := char_bounded c
  rw [replaceInvalid, if_neg]
  omega

/-- The code encodes characters as UTF-8. -/
theorem utf8Encode_toNat (c : Char) : utf8Encode c.toNat = String.utf8EncodeChar c := by
  rw [utf8Encode, replaceInvalid_toNat, encodeRune_eq (char_bounded c).1, wtf8Bytes_toNat]

/-- The code encodes characters as UTF-16. -/
theorem utf16Encode_toNat (c : Char) : utf16Encode c.toNat = utf16Units c := by
  have low : ∀ k, k &&& 0x3ff = k % 0x400 := fun k => Nat.and_two_pow_sub_one_eq_mod k 10
  simp only [utf16Encode, utf16Units, replaceInvalid_toNat, low, Nat.shiftRight_eq_div_pow]
  by_cases basic : c.toNat < 0x10000
  · rw [if_neg (not_le.mpr basic), if_pos basic]
  · rw [if_pos (not_lt.mp basic), if_neg basic]

/-- A small number fits a unit. -/
theorem toNat_unit {n : Nat} (small : n < 0x10000) : (UInt16.ofNat n).toNat = n :=
  UInt16.toNat_ofNat_of_lt' small

theorem ofNat_eq_unit {n : Nat} (c : UInt16) (value : n = c.toNat) : UInt16.ofNat n = c := by
  rw [value, UInt16.ofNat_toNat]

/-- The units of a character are read back. -/
theorem utf16Decode_utf16Units (c : Char) (rest : S16) :
    utf16Decode (utf16Units c ++ rest) = ⟨rest, c.toNat⟩ := by
  obtain ⟨bounded, outside⟩ := char_bounded c
  rw [utf16Units]
  split
  case isTrue basic =>
    have first : (UInt16.ofNat c.toNat).toNat = c.toNat := toNat_unit basic
    rw [List.singleton_append]
    unfold utf16Decode
    simp only [List.headD_cons, first]
    rw [if_neg (by omega), if_neg (by omega)]
    rfl
  case isFalse pair =>
    have first : (UInt16.ofNat ((c.toNat - 0x10000) / 0x400 + 0xd800)).toNat =
        (c.toNat - 0x10000) / 0x400 + 0xd800 := toNat_unit (by omega)
    have second : (UInt16.ofNat ((c.toNat - 0x10000) % 0x400 + 0xdc00)).toNat =
        (c.toNat - 0x10000) % 0x400 + 0xdc00 := toNat_unit (by omega)
    have value : 0x10000 + ((c.toNat - 0x10000) / 0x400 + 0xd800 - 0xd800) * 2 ^ 10 +
        ((c.toNat - 0x10000) % 0x400 + 0xdc00 - 0xdc00) = c.toNat := by omega
    rw [List.cons_append, List.singleton_append]
    unfold utf16Decode
    simp only [List.headD_cons, first, second, Nat.shiftLeft_eq, value]
    rw [if_neg (by omega), if_pos (by omega), if_neg (by omega)]

/-- The decoder finds the units of a character, or it skips one unit. -/
theorem utf16Decode_cases (unit : UInt16) (s : S16) :
    (∃ c, unit :: s = utf16Units c ++ (utf16Decode (unit :: s)).tail) ∨
      utf16Decode (unit :: s) = ⟨s, replacementCharacter⟩ := by
  have small := unit.toNat_lt
  unfold utf16Decode
  dsimp only [List.headD_cons, List.drop_succ_cons, List.drop_zero]
  split
  case isTrue => exact .inr rfl
  case isFalse notLow =>
    split
    case isTrue high =>
      match s with
      | [] => exact .inr rfl
      | second :: tail =>
          dsimp only
          split
          case isTrue => exact .inr rfl
          case isFalse low =>
            have large := second.toNat_lt
            have valid : (0x10000 + (unit.toNat - 0xd800) * 0x400 +
                (second.toNat - 0xdc00)).isValidChar := .inr ⟨by omega, by omega⟩
            obtain ⟨c, value⟩ := exists_char valid
            refine .inl ⟨c, ?_⟩
            rw [utf16Units, value, if_neg (by omega), ofNat_eq_unit unit (by omega),
              ofNat_eq_unit second (by omega)]
            rfl
    case isFalse notHigh =>
      have valid : unit.toNat.isValidChar := by
        rw [Nat.isValidChar]
        omega
      obtain ⟨c, value⟩ := exists_char valid
      refine .inl ⟨c, ?_⟩
      rw [utf16Units, value, if_pos small, ofNat_eq_unit unit rfl]
      rfl

/-- The replacement character of the program as a character. -/
def replacementChar : Char := Char.ofNat 0xfffd

def utf8Codec : Codec Char Nat UInt8 where
  toDecoder := utf8Decoder
  encode := String.utf8EncodeChar
  code := Char.toNat
  replacement := replacementChar
  encode_ne_nil _ := String.utf8EncodeChar_ne_nil
  next_encode c rest := by
    have decoded := utf8Decode_wtf8Bytes c.valid rest
    change utf8Decode (String.utf8EncodeChar c ++ rest) = _ at decoded
    simp only [utf8Decoder, decoded]
    rfl
  next_stray unit rest stray := by
    cases utf8Decode_cases unit rest with
    | inl found =>
        obtain ⟨n, valid, same⟩ := found
        obtain ⟨c, rfl⟩ := exists_char valid
        exact absurd ⟨_, same.symm⟩ (stray c)
    | inr skipped =>
        simp only [utf8Decoder, skipped]
        rfl

def utf16Codec : Codec Char Nat UInt16 where
  toDecoder := utf16Decoder
  encode := utf16Units
  code := Char.toNat
  replacement := replacementChar
  encode_ne_nil c := by
    rw [utf16Units]
    split <;> exact List.cons_ne_nil _ _
  next_encode c rest := by
    simp only [utf16Decoder, utf16Decode_utf16Units]
  next_stray unit rest stray := by
    cases utf16Decode_cases unit rest with
    | inl found =>
        obtain ⟨c, same⟩ := found
        exact absurd ⟨_, same.symm⟩ (stray c)
    | inr skipped =>
        simp only [utf16Decoder, skipped]
        rfl

/-- A byte string is converted to the units of the characters that it reads as. -/
theorem toWide_of_reads {s : S8} {chars : List Char}
    (reads : Reads String.utf8EncodeChar replacementChar s chars) :
    toWide s = some ⟨chars.flatMap utf16Units, (chars.flatMap utf16Units).length⟩ :=
  utf8Codec.convert_of_reads utf16Encode_toNat 0 reads

/-- A wide string converts to the characters that are read from it. -/
theorem fromWide_of_reads {w : S16} {chars : List Char}
    (reads : Reads utf16Units replacementChar w chars) :
    fromWide w = some ⟨chars.flatMap String.utf8EncodeChar,
      (chars.flatMap String.utf8EncodeChar).length⟩ :=
  utf16Codec.convert_of_reads utf8Encode_toNat 0 reads

/-- The string is made of whole encoded characters. -/
def WellFormed {Source : Type} (encode : Char → List Source) (s : List Source) : Prop :=
  ∃ chars : List Char, s = chars.flatMap encode

/-- Every byte at which no character starts is replaced by the replacement character. -/
def Repairs (s repaired : S8) : Prop :=
  ∃ chars, Reads String.utf8EncodeChar replacementChar s chars ∧
    repaired = chars.flatMap String.utf8EncodeChar

/-- There is only one way to repair a string. -/
theorem repairs_unique {s repaired repaired' : S8} (repairs : Repairs s repaired)
    (repairs' : Repairs s repaired') : repaired = repaired' := by
  obtain ⟨chars, reads, rfl⟩ := repairs
  obtain ⟨chars', reads', rfl⟩ := repairs'
  have injective : Function.Injective Char.toNat := fun _ _ same => Char.toNat_inj.mp same
  rw [utf8Codec.reads_unique injective reads reads']

/-- The conversion has this result, which fills the buffer that the first pass has counted. -/
def WritesWide (s : S8) (w : S16) : Prop :=
  toWide s = some ⟨w, w.length⟩ ∧ utf8Decoder.count utf16Encode 0 s = w.length

def WritesBytes (w : S16) (s : S8) : Prop :=
  fromWide w = some ⟨s, s.length⟩ ∧ utf16Decoder.count utf8Encode 0 w = s.length

/-- Both passes convert to the characters that are read. -/
theorem writesWide_of_reads {s : S8} {chars : List Char}
    (reads : Reads String.utf8EncodeChar replacementChar s chars) :
    WritesWide s (chars.flatMap utf16Units) := by
  have converted := toWide_of_reads reads
  refine ⟨converted, ?_⟩
  rw [toWide, Decoder.convert_eq] at converted
  rw [Decoder.count_eq, Nat.zero_add]
  exact congrArg Filled.len (Option.some.inj converted)

/-- The same holds in the other direction. -/
theorem writesBytes_of_reads {w : S16} {chars : List Char}
    (reads : Reads utf16Units replacementChar w chars) :
    WritesBytes w (chars.flatMap String.utf8EncodeChar) := by
  have converted := fromWide_of_reads reads
  refine ⟨converted, ?_⟩
  rw [fromWide, Decoder.convert_eq] at converted
  rw [Decoder.count_eq, Nat.zero_add]
  exact congrArg Filled.len (Option.some.inj converted)

/-- What the conversions promise for all strings. -/
structure ConversionsAgree : Prop where
  wide : ∀ s, ∃ w, WritesWide s w ∧ WellFormed utf16Units w
  bytes : ∀ w, ∃ s, WritesBytes w s ∧ WellFormed String.utf8EncodeChar s
  bytes_back : ∀ s, WellFormed String.utf8EncodeChar s → ∃ w, WritesWide s w ∧ WritesBytes w s
  wide_back : ∀ w, WellFormed utf16Units w → ∃ s, WritesBytes w s ∧ WritesWide s w
  repaired : ∀ s, ∃ w s', WritesWide s w ∧ WritesBytes w s' ∧ Repairs s s'
  idempotent : ∀ s, ∃ w s', WritesWide s w ∧ WritesBytes w s' ∧ WritesWide s' w

/-- The conversions are inverse to each other on well formed strings, and they repair others. -/
theorem conversions_agree : ConversionsAgree where
  wide s := by
    obtain ⟨chars, reads⟩ := utf8Codec.exists_reads s
    exact ⟨_, writesWide_of_reads reads, chars, rfl⟩
  bytes w := by
    obtain ⟨chars, reads⟩ := utf16Codec.exists_reads w
    exact ⟨_, writesBytes_of_reads reads, chars, rfl⟩
  bytes_back s formed := by
    obtain ⟨chars, rfl⟩ := formed
    exact ⟨_, writesWide_of_reads (reads_flatMap _ _ chars),
      writesBytes_of_reads (reads_flatMap _ _ chars)⟩
  wide_back w formed := by
    obtain ⟨chars, rfl⟩ := formed
    exact ⟨_, writesBytes_of_reads (reads_flatMap _ _ chars),
      writesWide_of_reads (reads_flatMap _ _ chars)⟩
  repaired s := by
    obtain ⟨chars, reads⟩ := utf8Codec.exists_reads s
    exact ⟨_, _, writesWide_of_reads reads, writesBytes_of_reads (reads_flatMap _ _ chars),
      chars, reads, rfl⟩
  idempotent s := by
    obtain ⟨chars, reads⟩ := utf8Codec.exists_reads s
    exact ⟨_, _, writesWide_of_reads reads, writesBytes_of_reads (reads_flatMap _ _ chars),
      writesWide_of_reads (reads_flatMap _ _ chars)⟩

end UConfig
