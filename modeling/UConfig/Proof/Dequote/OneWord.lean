/-
This file proves which fields are dequoted to a single argument.
-/

import UConfig.Proof.Dequote.FieldWords

namespace UConfig

/-- Dequoting takes the whole field as one argument, which stands for this text. -/
def DequotesTo (field text : S8) : Prop :=
  ∃ arg, unescape arg = text ∧
    DequotesAs field ⟨arg, [], true⟩ fun perm => { perm with beg := perm.beg + arg.length }

/-- A field has one result in all arenas that have enough room. -/
theorem DequotesAs.unique {field : S8} {r r' : Dequoted} {after after' : Arena → Arena}
    (first : DequotesAs field r after) (second : DequotesAs field r' after') : r = r' := by
  have large : ¬ 2 * field.length + 1 - 0 ≤ 2 * field.length := by omega
  have read := (first ⟨0, 2 * field.length + 1⟩).resolve_right fun full => large full.2
  have read' := (second ⟨0, 2 * field.length + 1⟩).resolve_right fun full => large full.2
  rw [read] at read'
  exact congrArg Prod.fst (Except.ok.inj read')

/-- A field is one argument when it is one word, and the argument is what the word denotes. -/
theorem dequotesTo_iff {field text : S8} (nonblank : ∃ c ∈ field, whitespace c = false) :
    DequotesTo field text ↔ ∃ word, FirstWord field word [] ∧ Word.meaning word = text := by
  obtain ⟨starts, closed, opened⟩ := firstWordRead nonblank
  constructor
  · intro dequotes
    obtain ⟨arg, denotes, read⟩ := dequotes
    cases starts with
    | inl first =>
        obtain ⟨word, rest, first⟩ := first
        obtain ⟨arg', denotes', read'⟩ := closed word rest first
        cases read.unique read'
        exact ⟨word, first, denotes'.symm.trans denotes⟩
    | inr isOpen =>
        cases read.unique (opened isOpen)
  · intro isWord
    obtain ⟨word, first, denotes⟩ := isWord
    obtain ⟨arg, denotes', read⟩ := closed word [] first
    exact ⟨arg, denotes'.trans denotes, read⟩

/-- The text of a word is the text of its parts. -/
theorem Word.text_cons (part : Part) (word : Word) :
    Word.text (part :: word) = part.text ++ word.text := rfl

/-- The meaning of a word is the meaning of its parts. -/
theorem Word.meaning_cons (part : Part) (word : Word) :
    Word.meaning (part :: word) = part.meaning ++ word.meaning := rfl

/-- Decoding neither adds nor drops a backslash. -/
theorem count_quotedValue (text : S8) :
    (text.map quotedValue).count '\\'.toUInt8 = text.count '\\'.toUInt8 := by
  induction text with
  | nil => rfl
  | cons b text ih =>
      rw [List.map_cons, List.count_cons, List.count_cons, ih]
      by_cases backslash : b = '\\'.toUInt8
      · rw [(quotedValue_backslash b).mpr backslash, backslash]
      · have value := mt (quotedValue_backslash b).mp backslash
        simp only [beq_iff_eq, if_neg backslash, if_neg value]

/-- Dequoting neither drops nor adds a backslash. -/
theorem Part.count_backslash (part : Part) :
    part.meaning.count '\\'.toUInt8 = part.text.count '\\'.toUInt8 := by
  cases part with
  | bare c solid noSingle noDouble =>
      have noQuote : isQuote c = false := by simp [isQuote, noSingle, noDouble]
      rw [meaning, ← (dequoteByte_bare c solid noQuote).2]
      exact count_quotedValue [c]
  | single text inside =>
      have quote : ['\''.toUInt8].count '\\'.toUInt8 = 0 := by decide
      rw [Part.text, List.count_append, List.count_cons_of_ne (by decide), quote]
      exact count_quotedValue text
  | double text inside =>
      have quote : ['\"'.toUInt8].count '\\'.toUInt8 = 0 := by decide
      rw [Part.text, List.count_append, List.count_cons_of_ne (by decide), quote]
      exact count_quotedValue text

/-- A word denotes as many backslashes as it has. -/
theorem Word.count_backslash (word : Word) :
    word.meaning.count '\\'.toUInt8 = word.text.count '\\'.toUInt8 := by
  induction word with
  | nil => rfl
  | cons part word ih =>
      rw [text_cons, meaning_cons, List.count_append, List.count_append,
        part.count_backslash, ih]

/-- A part with quotes is longer than what it denotes. -/
theorem Part.longer (part : Part) :
    (∀ c ∈ part.text, isQuote c = false) ∧ part.meaning.length = part.text.length ∨
      part.meaning.length < part.text.length := by
  cases part with
  | bare c solid noSingle noDouble =>
      left
      refine ⟨?_, rfl⟩
      intro other member
      rw [Part.text, List.mem_singleton] at member
      simp [member, isQuote, noSingle, noDouble]
  | single text inside =>
      right
      simp only [Part.text, meaning, List.length_map, List.length_append, List.length_cons]
      omega
  | double text inside =>
      right
      simp only [Part.text, meaning, List.length_map, List.length_append, List.length_cons]
      omega

/-- A word denotes at most as many bytes as it has. -/
theorem Word.length_meaning (word : Word) : word.meaning.length ≤ word.text.length := by
  induction word with
  | nil => exact Nat.le_refl 0
  | cons part word ih =>
      rw [text_cons, meaning_cons, List.length_append, List.length_append]
      apply Nat.add_le_add _ ih
      cases part.longer with
      | inl bare => exact bare.2.le
      | inr longer => exact longer.le

/-- A word that is as long as what it denotes has no quotes. -/
theorem Word.quote_free (word : Word) (long : word.text.length ≤ word.meaning.length) :
    ∀ c ∈ word.text, isQuote c = false := by
  induction word with
  | nil =>
      intro c member
      cases member
  | cons part word ih =>
      have short := Word.length_meaning word
      rw [text_cons, meaning_cons, List.length_append, List.length_append] at long
      intro c member
      rw [text_cons] at member
      cases part.longer with
      | inl bare =>
          cases List.mem_append.mp member with
          | inl here => exact bare.1 c here
          | inr later => exact ih (by omega) c later
      | inr longer => omega

/-- A text without whitespace and without quotes is a word that denotes its decoded bytes. -/
theorem exists_bareWord (s : S8)
    (bare : ∀ c ∈ s, whitespace c = false ∧ isQuote c = false) :
    ∃ word : Word, word.text = s ∧ word.meaning = s.map pathDecode := by
  induction s with
  | nil => exact ⟨[], rfl, rfl⟩
  | cons c s ih =>
      obtain ⟨word, isText, denotes⟩ := ih fun d member => bare d (List.mem_cons_of_mem _ member)
      obtain ⟨solid, noQuote⟩ := bare c List.mem_cons_self
      simp only [isQuote, Bool.or_eq_false_iff, beq_eq_false_iff_ne] at noQuote
      refine ⟨.bare c solid noQuote.1 noQuote.2 :: word, ?_, ?_⟩
      · rw [← isText]
        rfl
      · rw [List.map_cons, ← denotes]
        rfl

/-- A text without whitespace is dequoted to its decoded bytes when it has no quotes. -/
theorem dequotesTo_bare {s : S8} (nonempty : s ≠ [])
    (bare : ∀ c ∈ s, whitespace c = false ∧ isQuote c = false) :
    DequotesTo s (s.map pathDecode) := by
  obtain ⟨word, isText, denotes⟩ := exists_bareWord s bare
  obtain ⟨first, _⟩ := List.exists_mem_of_ne_nil s nonempty
  apply (dequotesTo_iff ⟨first, ‹_›, (bare first ‹_›).1⟩).mpr
  refine ⟨word, ⟨[], ?_, ?_, ?_, ?_⟩, denotes⟩
  · intro c member
    cases member
  · rintro rfl
    exact nonempty isText.symm
  · intro c found
    cases found
  · rw [isText, List.nil_append, List.append_nil]

/-- Whitespace in front of a word has no byte of another kind. -/
theorem FirstWord.mem_text {field : S8} {word : Word} (first : FirstWord field word []) {c : UInt8}
    (solid : whitespace c = false) (member : c ∈ field) : c ∈ word.text := by
  obtain ⟨spaces, isBlank, _, _, rfl⟩ := first
  rw [List.append_nil] at member
  cases List.mem_append.mp member with
  | inl space =>
      rw [isBlank c space] at solid
      cases solid
  | inr inside => exact inside

/-- A field that is as long as what it is dequoted to has no quotes. -/
theorem DequotesTo.quote_free {field text : S8} (nonblank : ∃ c ∈ field, whitespace c = false)
    (dequotes : DequotesTo field text) (long : field.length ≤ text.length) :
    ∀ c ∈ field, isQuote c = false := by
  obtain ⟨word, first, denotes⟩ := (dequotesTo_iff nonblank).mp dequotes
  have same := first
  obtain ⟨spaces, _, _, _, rfl⟩ := same
  simp only [List.append_nil, List.length_append] at long
  have inside := word.quote_free (by rw [denotes]; omega)
  intro c member
  by_contra isQuoted
  rw [Bool.not_eq_false] at isQuoted
  have other := inside c (first.mem_text (isQuote_solid c isQuoted) member)
  rw [isQuoted] at other
  cases other

/-- A field has as many backslashes as what it is dequoted to. -/
theorem DequotesTo.count_backslash {field text : S8}
    (nonblank : ∃ c ∈ field, whitespace c = false) (dequotes : DequotesTo field text) :
    field.count '\\'.toUInt8 = text.count '\\'.toUInt8 := by
  obtain ⟨word, ⟨spaces, isBlank, _, _, rfl⟩, rfl⟩ := (dequotesTo_iff nonblank).mp dequotes
  have none : '\\'.toUInt8 ∉ spaces := by
    intro member
    have blank := isBlank _ member
    revert blank
    decide
  rw [word.count_backslash, List.append_nil, List.count_append, List.count_eq_zero.mpr none,
    Nat.zero_add]

end UConfig
