/-
This file gives the words of a field and proves that the scan takes the first of them.
-/

import UConfig.Proof.Dequote.Escapes

namespace UConfig

/-- A part of a word is one byte outside of quotes or a quoted text. -/
inductive Part where
  | bare (c : UInt8) (solid : whitespace c = false) (noSingle : c ≠ '\''.toUInt8)
      (noDouble : c ≠ '\"'.toUInt8)
  | single (text : S8) (inside : '\''.toUInt8 ∉ text)
  | double (text : S8) (inside : '\"'.toUInt8 ∉ text)

namespace Part

def text : Part → S8
  | bare c _ _ _ => [c]
  | single text _ => '\''.toUInt8 :: text ++ ['\''.toUInt8]
  | double text _ => '\"'.toUInt8 :: text ++ ['\"'.toUInt8]

/-- The quotes are dropped, whitespace inside of them is a space, and encoded bytes are decoded. -/
def meaning : Part → S8
  | bare c _ _ _ => [pathDecode c]
  | single text _ => text.map quotedValue
  | double text _ => text.map quotedValue

end Part

/-- A word is made of parts that stand right behind each other. -/
abbrev Word := List Part

def Word.text (word : Word) : S8 := word.flatMap Part.text

def Word.meaning (word : Word) : S8 := word.flatMap Part.meaning

/-- A word ends at the end of the field or before whitespace. -/
def WordEnd (rest : S8) : Prop := ∀ c, rest.head? = some c → whitespace c = true

def isQuote (c : UInt8) : Bool := c == '\''.toUInt8 || c == '\"'.toUInt8

/-- All bytes are checked at once for what they do outside of quotes. -/
theorem dequoteByte_outside : ∀ b,
    (isQuote b = true → whitespace b = false) ∧
    (whitespace b = true → dequoteByte .start b = none) ∧
    (isQuote b = true → dequoteByte .start b = some ([], ⟨b, false⟩)) ∧
    (whitespace b = false → isQuote b = false →
      (dequoteByte .start b).map Prod.snd = some .start ∧ quotedValue b = pathDecode b) := by
  intro b
  refine ⟨?_, ?_, ?_, ?_⟩ <;> revert b <;> exact forall_byte (by decide +kernel)

/-- All bytes are checked at once for what they do inside of quotes. -/
theorem dequoteByte_inside : ∀ b,
    (isQuote b = true → dequoteByte ⟨b, false⟩ b = some ([], .start)) ∧
    (b ≠ '\''.toUInt8 →
      (dequoteByte ⟨'\''.toUInt8, false⟩ b).map Prod.snd = some ⟨'\''.toUInt8, false⟩) ∧
    (b ≠ '\"'.toUInt8 →
      (dequoteByte ⟨'\"'.toUInt8, false⟩ b).map Prod.snd = some ⟨'\"'.toUInt8, false⟩) := by
  intro b
  refine ⟨?_, ?_, ?_⟩ <;> revert b <;> exact forall_byte (by decide +kernel)

/-- A quote is not blank. -/
theorem isQuote_solid : ∀ b, isQuote b = true → whitespace b = false :=
  fun b => (dequoteByte_outside b).1

/-- A blank outside of quotes ends the word. -/
theorem dequoteByte_blank : ∀ b, whitespace b = true → dequoteByte .start b = none :=
  fun b => (dequoteByte_outside b).2.1

/-- A quote outside of quotes opens them. -/
theorem dequoteByte_open : ∀ b, isQuote b = true →
    dequoteByte .start b = some ([], ⟨b, false⟩) :=
  fun b => (dequoteByte_outside b).2.2.1

/-- A bare byte leaves the state alone, and its value is what it encodes. -/
theorem dequoteByte_bare : ∀ b, whitespace b = false → isQuote b = false →
    (dequoteByte .start b).map Prod.snd = some .start ∧ quotedValue b = pathDecode b :=
  fun b => (dequoteByte_outside b).2.2.2

/-- The same quote closes them. -/
theorem dequoteByte_close : ∀ b, isQuote b = true →
    dequoteByte ⟨b, false⟩ b = some ([], .start) :=
  fun b => (dequoteByte_inside b).1

/-- Nothing else ends single quotes. -/
theorem dequoteByte_single : ∀ b, b ≠ '\''.toUInt8 →
    (dequoteByte ⟨'\''.toUInt8, false⟩ b).map Prod.snd = some ⟨'\''.toUInt8, false⟩ :=
  fun b => (dequoteByte_inside b).2.1

/-- Nothing else ends double quotes. -/
theorem dequoteByte_double : ∀ b, b ≠ '\"'.toUInt8 →
    (dequoteByte ⟨'\"'.toUInt8, false⟩ b).map Prod.snd = some ⟨'\"'.toUInt8, false⟩ :=
  fun b => (dequoteByte_inside b).2.2

/-- A byte that leaves its state alone prints its value. -/
theorem dequoteByte_stay {q : Quoting} (unescaped : q.escaped = false) {b : UInt8}
    (stays : (dequoteByte q b).map Prod.snd = some q) :
    ∃ bytes, dequoteByte q b = some (bytes, q) ∧ Escapes bytes [quotedValue b] := by
  obtain ⟨next, consumed, same⟩ := Option.map_eq_some_iff.mp stays
  obtain ⟨bytes, q'⟩ := next
  obtain rfl : q' = q := same
  obtain ⟨_, _, toggles | rfl⟩ := dequoteByte_some unescaped consumed
  · exact absurd rfl toggles.2.2
  · exact ⟨valueBytes b, consumed, escapes_valueBytes b⟩

/-- The scan of a text before the rest prints this value and goes on in this state. -/
def Scans (q : Quoting) (text value : S8) (q' : Quoting) : Prop :=
  ∃ printed, Escapes printed value ∧ ∀ rest, dequoteScan q (text ++ rest) =
    { dequoteScan q' rest with printed := printed ++ (dequoteScan q' rest).printed }

/-- The empty text has no value. -/
theorem Scans.nil (q : Quoting) : Scans q [] [] q := ⟨[], .nil, fun _ => rfl⟩

/-- Texts are scanned one behind the other. -/
theorem Scans.append {q q' q'' : Quoting} {text value text' value' : S8}
    (first : Scans q text value q') (second : Scans q' text' value' q'') :
    Scans q (text ++ text') (value ++ value') q'' := by
  obtain ⟨printed, escapes, scans⟩ := first
  obtain ⟨printed', escapes', scans'⟩ := second
  refine ⟨printed ++ printed', escapes.append escapes', fun rest => ?_⟩
  rw [List.append_assoc, scans, scans', List.append_assoc]

/-- A byte that a state consumes is scanned. -/
theorem Scans.byte {q q' : Quoting} {b : UInt8} {bytes value : S8}
    (consumed : dequoteByte q b = some (bytes, q')) (escapes : Escapes bytes value) :
    Scans q [b] value q' := by
  refine ⟨bytes, escapes, fun rest => ?_⟩
  rw [List.singleton_append, dequoteScan, consumed]

/-- A text without the closing quote stays inside of its quotes. -/
theorem Scans.inside {q : Quoting} (unescaped : q.escaped = false) {text : S8}
    (stays : ∀ b ∈ text, (dequoteByte q b).map Prod.snd = some q) :
    Scans q text (text.map quotedValue) q := by
  induction text with
  | nil => exact .nil q
  | cons b text ih =>
      obtain ⟨bytes, consumed, escapes⟩ := dequoteByte_stay unescaped (stays b List.mem_cons_self)
      exact (Scans.byte consumed escapes).append
        (ih fun other member => stays other (List.mem_cons_of_mem _ member))

/-- Behind a quote a text without it is scanned in quotes. -/
theorem Scans.quoted {quote : UInt8} (quotes : isQuote quote = true) {text : S8}
    (inside : quote ∉ text) : Scans .start (quote :: text) (text.map quotedValue) ⟨quote, false⟩ := by
  have opened : Scans .start [quote] [] ⟨quote, false⟩ := .byte (dequoteByte_open quote quotes) .nil
  apply opened.append (Scans.inside rfl ?_)
  intro b member
  have different : b ≠ quote := fun same => inside (same ▸ member)
  simp only [isQuote, Bool.or_eq_true, beq_iff_eq] at quotes
  rcases quotes with rfl | rfl
  · exact dequoteByte_single b different
  · exact dequoteByte_double b different

/-- The scan of a part prints its meaning. -/
theorem Scans.part (part : Part) : Scans .start part.text part.meaning .start := by
  cases part with
  | bare c solid noSingle noDouble =>
      have noQuote : isQuote c = false := by simp [isQuote, noSingle, noDouble]
      obtain ⟨stays, value⟩ := dequoteByte_bare c solid noQuote
      obtain ⟨bytes, consumed, escapes⟩ := dequoteByte_stay rfl stays
      rw [value] at escapes
      exact .byte consumed escapes
  | single text inside =>
      have closed : Scans ⟨'\''.toUInt8, false⟩ ['\''.toUInt8] [] .start :=
        .byte (dequoteByte_close _ (by decide)) .nil
      have whole := (Scans.quoted (by decide) inside).append closed
      rwa [List.append_nil] at whole
  | double text inside =>
      have closed : Scans ⟨'\"'.toUInt8, false⟩ ['\"'.toUInt8] [] .start :=
        .byte (dequoteByte_close _ (by decide)) .nil
      have whole := (Scans.quoted (by decide) inside).append closed
      rwa [List.append_nil] at whole

/-- A whole word is scanned to its meaning and leaves no quote open. -/
theorem Scans.word (word : Word) : Scans .start word.text word.meaning .start := by
  induction word with
  | nil => exact .nil .start
  | cons part word ih => exact (Scans.part part).append ih

/-- The first byte of a part is not whitespace. -/
theorem Part.text_head (part : Part) (rest : S8) :
    ∃ c behind, part.text ++ rest = c :: behind ∧ whitespace c = false := by
  cases part with
  | bare c solid noSingle noDouble => exact ⟨c, rest, rfl, solid⟩
  | single text inside => exact ⟨_, _, rfl, by decide⟩
  | double text inside => exact ⟨_, _, rfl, by decide⟩

/-- The blanks before a word are dropped and nothing else. -/
theorem dropWhile_spaces {spaces rest : S8} (blank : ∀ c ∈ spaces, whitespace c = true)
    (solid : ∃ c behind, rest = c :: behind ∧ whitespace c = false) :
    (spaces ++ rest).dropWhile whitespace = rest := by
  obtain ⟨c, behind, rfl, solid⟩ := solid
  rw [List.dropWhile_append_of_pos blank, List.dropWhile_cons_of_neg (by simp [solid])]

/-- The argument that a word gives. -/
def Word.arg (word : Word) : S8 := (dequoteScan .start word.text).printed

/-- The argument of a word stands for its meaning. -/
theorem Word.unescape_arg (word : Word) : unescape word.arg = word.meaning := by
  obtain ⟨printed, escapes, scans⟩ := Scans.word word
  have alone := scans []
  rw [List.append_nil] at alone
  have same : word.arg = printed := by
    rw [Word.arg, alone]
    exact List.append_nil printed
  rw [same]
  exact escapes.unescape_eq

/-- The scan of a word stops at the whitespace behind it. -/
theorem dequoteScan_word (word : Word) {rest : S8} (stops : WordEnd rest) :
    dequoteScan .start (word.text ++ rest) = ⟨word.arg, .start, rest⟩ := by
  obtain ⟨printed, _, scans⟩ := Scans.word word
  have alone := scans []
  rw [List.append_nil] at alone
  have ends : dequoteScan .start rest = ⟨[], .start, rest⟩ := by
    cases rest with
    | nil => rfl
    | cons c rest => rw [dequoteScan, dequoteByte_blank c (stops c rfl)]
  rw [Word.arg, scans, alone, ends]
  rfl

/-- The token of a field is its first word. -/
theorem dequoteToken_word {spaces rest : S8} (blank : ∀ c ∈ spaces, whitespace c = true)
    {word : Word} (nonempty : word ≠ []) (stops : WordEnd rest) :
    dequoteToken (spaces ++ word.text ++ rest) = ⟨word.arg, .start, rest⟩ := by
  have solid : ∃ c behind, word.text ++ rest = c :: behind ∧ whitespace c = false := by
    obtain ⟨first, others, rfl⟩ := List.exists_cons_of_ne_nil nonempty
    obtain ⟨c, behind, same, solid⟩ := first.text_head (Word.text others ++ rest)
    refine ⟨c, behind, ?_, solid⟩
    rw [← same, ← List.append_assoc]
    rfl
  rw [dequoteToken, List.append_assoc, dropWhile_spaces blank solid, dequoteScan_word word stops]

/-- The token of a field with an open quote in its first word has the quote open at its end. -/
theorem dequoteToken_unclosed {spaces : S8} (blank : ∀ c ∈ spaces, whitespace c = true)
    (word : Word) {quote : UInt8} (quotes : isQuote quote = true) {text : S8}
    (inside : quote ∉ text) :
    (dequoteToken (spaces ++ word.text ++ quote :: text)).quoting.quote = quote := by
  have solid : ∃ c behind, word.text ++ quote :: text = c :: behind ∧ whitespace c = false := by
    cases word with
    | nil =>
        refine ⟨quote, text, rfl, ?_⟩
        exact isQuote_solid quote quotes
    | cons first others =>
        obtain ⟨c, behind, same, solid⟩ := first.text_head (Word.text others ++ quote :: text)
        refine ⟨c, behind, ?_, solid⟩
        rw [← same, ← List.append_assoc]
        rfl
  obtain ⟨printed, _, scans⟩ := (Scans.word word).append (Scans.quoted quotes inside)
  have whole := scans []
  rw [List.append_nil] at whole
  rw [dequoteToken, List.append_assoc, dropWhile_spaces blank solid, whole]
  rfl

/-- A text between two quotes is a part. -/
theorem Part.exists_quoted {quote : UInt8} (quotes : isQuote quote = true) {text : S8}
    (inside : quote ∉ text) : ∃ part : Part, part.text = quote :: text ++ [quote] := by
  simp only [isQuote, Bool.or_eq_true, beq_iff_eq] at quotes
  rcases quotes with rfl | rfl
  · exact ⟨.single text inside, rfl⟩
  · exact ⟨.double text inside, rfl⟩

/-- Every text starts with a word, which is closed or ends in an open quote. -/
theorem exists_word (s : S8) :
    (∃ word rest, s = Word.text word ++ rest ∧ WordEnd rest) ∨
    ∃ word quote text, s = Word.text word ++ quote :: text ∧ isQuote quote = true ∧ quote ∉ text := by
  induction size : s.length using Nat.strong_induction_on generalizing s with
  | _ size ih =>
      subst size
      cases s with
      | nil => exact .inl ⟨[], [], rfl, fun c found => (by cases found)⟩
      | cons c s =>
          -- A part in front of the rest joins the word that the rest starts with.
          have joins : ∀ (part : Part) (behind : S8), c :: s = part.text ++ behind →
              behind.length < (c :: s).length → (∃ word rest, c :: s = Word.text word ++ rest ∧
                WordEnd rest) ∨ ∃ word quote text, c :: s = Word.text word ++ quote :: text ∧
                isQuote quote = true ∧ quote ∉ text := by
            intro part behind shape shorter
            rcases ih behind.length shorter behind rfl with
              ⟨word, rest, same, stops⟩ | ⟨word, quote, text, same, quotes, inside⟩
            · exact .inl ⟨part :: word, rest, by rw [shape, same]; simp [Word.text], stops⟩
            · exact .inr ⟨part :: word, quote, text, by rw [shape, same]; simp [Word.text], quotes,
                inside⟩
          by_cases blank : whitespace c = true
          · exact .inl ⟨[], c :: s, rfl, fun d found => Option.some.inj found ▸ blank⟩
          · by_cases quotes : isQuote c = true
            · by_cases closes : c ∈ s
              · obtain ⟨text, behind, rfl, inside⟩ := List.eq_append_cons_of_mem closes
                obtain ⟨part, shape⟩ := Part.exists_quoted quotes inside
                exact joins part behind (by rw [shape]; simp) (by simp; omega)
              · exact .inr ⟨[], c, s, rfl, quotes, closes⟩
            · simp only [isQuote, Bool.or_eq_true, beq_iff_eq, not_or] at quotes
              exact joins (.bare c (by simpa using blank) quotes.1 quotes.2) s rfl (Nat.lt_succ_self _)

end UConfig
