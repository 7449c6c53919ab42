/-
This file proves which arguments a whole field gives.
-/

import UConfig.Program.Fields
import UConfig.Proof.Dequote.Words

namespace UConfig

/-- A field is made of words with whitespace around them, and some whitespace may trail. -/
inductive FieldWords : S8 → List Word → S8 → Prop
  | blank {spaces : S8} (isBlank : ∀ c ∈ spaces, whitespace c = true) :
      FieldWords spaces [] spaces
  | word {spaces : S8} (isBlank : ∀ c ∈ spaces, whitespace c = true) {word : Word}
      (nonempty : word ≠ []) {rest : S8} (stops : WordEnd rest) {words : List Word} {trailing : S8}
      (others : FieldWords rest words trailing) :
      FieldWords (spaces ++ Word.text word ++ rest) (word :: words) trailing

/-- A field with an open quote has some words before the one that is not closed. -/
inductive FieldOpen : S8 → List Word → Prop
  | quote {spaces : S8} (isBlank : ∀ c ∈ spaces, whitespace c = true) (word : Word)
      {quote : UInt8} (quotes : isQuote quote = true) {text : S8} (inside : quote ∉ text) :
      FieldOpen (spaces ++ Word.text word ++ quote :: text) []
  | word {spaces : S8} (isBlank : ∀ c ∈ spaces, whitespace c = true) {word : Word}
      (nonempty : word ≠ []) {rest : S8} (stops : WordEnd rest) {words : List Word}
      (others : FieldOpen rest words) :
      FieldOpen (spaces ++ Word.text word ++ rest) (word :: words)

/-- The first word of a field is closed, and this is what stands behind it. -/
def FirstWord (field : S8) (word : Word) (rest : S8) : Prop :=
  ∃ spaces : S8, (∀ c ∈ spaces, whitespace c = true) ∧ word ≠ [] ∧ WordEnd rest ∧
    field = spaces ++ word.text ++ rest

/-- The first word of a field has an open quote. -/
def FirstOpen (field : S8) : Prop :=
  ∃ (spaces : S8) (word : Word) (quote : UInt8) (text : S8),
    (∀ c ∈ spaces, whitespace c = true) ∧ isQuote quote = true ∧ quote ∉ text ∧
    field = spaces ++ word.text ++ quote :: text

/-- Every field that is not blank has a first word of one of the two kinds. -/
theorem exists_firstWord {field : S8} (nonblank : ∃ c ∈ field, whitespace c = false) :
    (∃ word rest, FirstWord field word rest) ∨ FirstOpen field := by
  have split := List.takeWhile_append_dropWhile (p := whitespace) (l := field)
  have blank : ∀ c ∈ field.takeWhile whitespace, whitespace c = true :=
    fun c member => List.mem_takeWhile_imp member
  cases exists_word (field.dropWhile whitespace) with
  | inl closed =>
      obtain ⟨word, rest, same, stops⟩ := closed
      refine .inl ⟨word, rest, field.takeWhile whitespace, blank, ?_, stops, ?_⟩
      · rintro rfl
        have same : field.dropWhile whitespace = rest := same
        cases rest with
        | nil =>
            obtain ⟨c, member, solid⟩ := nonblank
            have isBlank := List.dropWhile_eq_nil_iff.mp same c member
            rw [solid] at isBlank
            cases isBlank
        | cons c rest =>
            have first := stops_of_dropWhile same
            rw [stops c rfl] at first
            cases first
      · rw [List.append_assoc, ← same, split]
  | inr opened =>
      obtain ⟨word, quote, text, same, quotes, inside⟩ := opened
      refine .inr ⟨field.takeWhile whitespace, word, quote, text, blank, quotes, inside, ?_⟩
      rw [List.append_assoc, ← same, split]

/-- Every field is made of words or has an open quote. -/
theorem exists_fieldWords (field : S8) :
    (∃ words trailing, FieldWords field words trailing) ∨ ∃ words, FieldOpen field words := by
  induction size : field.length using Nat.strong_induction_on generalizing field with
  | _ size ih =>
      subst size
      by_cases nonblank : ∃ c ∈ field, whitespace c = false
      · rcases exists_firstWord nonblank with
          ⟨word, rest, spaces, isBlank, nonempty, stops, rfl⟩ | opened
        · have shorter : rest.length < (spaces ++ word.text ++ rest).length := by
            obtain ⟨first, others, rfl⟩ := List.exists_cons_of_ne_nil nonempty
            obtain ⟨c, behind, same, _⟩ := first.text_head []
            have positive : 0 < (Word.text (first :: others)).length := by
              rw [List.append_nil] at same
              simp [Word.text, same]
            simp only [List.length_append]
            omega
          rcases ih rest.length shorter rest rfl with ⟨words, trailing, others⟩ | ⟨words, others⟩
          · exact .inl ⟨_, _, .word isBlank nonempty stops others⟩
          · exact .inr ⟨_, .word isBlank nonempty stops others⟩
        · obtain ⟨spaces, word, quote, text, isBlank, quotes, inside, rfl⟩ := opened
          exact .inr ⟨[], .quote isBlank word quotes inside⟩
      · refine .inl ⟨[], field, .blank fun c member => ?_⟩
        by_contra solid
        exact nonblank ⟨c, member, by simpa using solid⟩

/-- A field is dequoted like this in every arena that has enough room. -/
def DequotesAs (field : S8) (r : Dequoted) (after : Arena → Arena) : Prop :=
  ∀ perm, dequote field perm = .ok (r, after perm) ∨
    (dequote field perm = .error .outOfMemory ∧ perm.finish - perm.beg ≤ 2 * field.length)

/-- The result of the scan is the result in every arena that has enough room. -/
theorem dequotesAs_token (field : S8) :
    DequotesAs field (dequoteToken field).result fun perm =>
      if (dequoteToken field).quoting.quote ≠ 0 then perm
      else { perm with beg := perm.beg + (dequoteToken field).printed.length } := by
  intro perm
  have short := token_fits field
  by_cases fits : (dequoteToken field).printed = [] ∨ (newMemBuf perm).buf.length +
      (dequoteToken field).printed.length < (newMemBuf perm).cap
  · left
    rw [dequote, foldlM_printU8, if_pos fits]
    change (if _ then _ else _) = _
    split <;> rfl
  · right
    rw [dequote, foldlM_printU8, if_neg fits]
    refine ⟨rfl, ?_⟩
    simp only [newMemBuf, List.length_nil, not_or] at fits
    omega

/-- The first word of the field decides what dequoting returns and what it keeps of the arena. -/
def FirstWordRead (field : S8) : Prop :=
  ((∃ word rest, FirstWord field word rest) ∨ FirstOpen field) ∧
  (∀ word rest, FirstWord field word rest → ∃ arg, unescape arg = Word.meaning word ∧
    DequotesAs field ⟨arg, rest, true⟩ fun perm => { perm with beg := perm.beg + arg.length }) ∧
  (FirstOpen field → DequotesAs field ⟨[], [], false⟩ id)

/-- The field adds exactly the meanings of its words, or its open quote is reported. -/
def WordsRead (field : S8) : Prop :=
  ((∃ words trailing, FieldWords field words trailing) ∨ ∃ words, FieldOpen field words) ∧
  (∀ words trailing, FieldWords field words trailing → ∀ args realname, ∃ args' added,
    appendField ⟨args, .any⟩ realname field = .ok ⟨args', .any⟩ ∧
    args'.list = args.list ++ added ∧ added.map unescape = words.map Word.meaning) ∧
  ∀ words, FieldOpen field words → ∀ args realname,
    appendField ⟨args, .any⟩ realname field = .error (.fail (.unmatchedQuote realname))

/-- Some whitespace outside of quotes stands at the end of the field. -/
def EndsBlank (field : S8) : Prop :=
  ∃ words trailing, FieldWords field words trailing ∧ trailing ≠ []

/-- The first word of a field is dequoted to its argument. -/
theorem dequoteToken_result_word {field : S8} {word : Word} {rest : S8}
    (first : FirstWord field word rest) : dequoteToken field = ⟨word.arg, .start, rest⟩ := by
  obtain ⟨spaces, isBlank, nonempty, stops, rfl⟩ := first
  exact dequoteToken_word isBlank nonempty stops

/-- The null byte is no quote. -/
theorem isQuote_ne_zero {quote : UInt8} (quotes : isQuote quote = true) : quote ≠ 0 := by
  rintro rfl
  revert quotes
  decide

/-- The first word of a field that is not blank is read. -/
theorem firstWordRead {field : S8} (nonblank : ∃ c ∈ field, whitespace c = false) :
    FirstWordRead field := by
  refine ⟨exists_firstWord nonblank, fun word rest first => ?_, fun opened => ?_⟩
  · have read := dequotesAs_token field
    rw [dequoteToken_result_word first] at read
    exact ⟨word.arg, word.unescape_arg, read⟩
  · obtain ⟨spaces, word, quote, text, isBlank, quotes, inside, rfl⟩ := opened
    have isOpen := dequoteToken_unclosed isBlank word quotes inside
    have read := dequotesAs_token (spaces ++ word.text ++ quote :: text)
    have nonzero : (dequoteToken (spaces ++ word.text ++ quote :: text)).quoting.quote ≠ 0 := by
      rw [isOpen]
      exact isQuote_ne_zero quotes
    simp only [DequoteScan.result, if_pos nonzero] at read
    exact read

/-- Arguments may be appended in two parts. -/
theorem appendArgs_append (args : Args) (first second : List S8) :
    args.appendArgs (first ++ second) = (args.appendArgs first).appendArgs second :=
  List.foldl_append

/-- Appended arguments stand behind the others. -/
theorem appendArgs_list (args : Args) (items : List S8) :
    (args.appendArgs items).list = args.list ++ items := by
  induction items generalizing args with
  | nil => exact (List.append_nil _).symm
  | cons arg items ih =>
      have rest := ih (args.appendArg arg)
      rw [appendArg_list, List.append_assoc] at rest
      exact rest

/-- A token that is read is appended when the filter lets it pass. -/
theorem appendField_read {field : S8} (nonempty : field ≠ [])
    (read : (dequoteToken field).result.ok = true) (f : Filter) (args : Args) (realname : S8) :
    appendField ⟨args, f⟩ realname field =
      appendField ⟨args.appendArgs ([(dequoteToken field).result.arg].filter (filterOk f)), f⟩
        realname (dequoteToken field).result.tail := by
  rw [appendField, if_neg nonempty]
  dsimp only
  rw [if_neg (by simp [read]), List.filter_singleton]
  cases filterOk f (dequoteToken field).result.arg <;> rfl

/-- A token with an open quote is reported. -/
theorem appendField_failed {field : S8} (nonempty : field ≠ [])
    (failed : ¬(dequoteToken field).result.ok = true) (w : FieldWriter) (realname : S8) :
    appendField w realname field = .error (.fail (.unmatchedQuote realname)) := by
  rw [appendField, if_neg nonempty]
  exact if_pos (by simp [failed])

/-- A blank field that is not empty gives one empty argument. -/
theorem appendField_blank {spaces : S8} (isBlank : ∀ c ∈ spaces, whitespace c = true)
    (f : Filter) (args : Args) (realname : S8) :
    appendField ⟨args, f⟩ realname spaces =
      .ok ⟨args.appendArgs ((if spaces = [] then [] else [[]]).filter (filterOk f)), f⟩ := by
  split
  case isTrue empty =>
    rw [appendField, if_pos empty]
    rfl
  case isFalse nonempty =>
    have skipped : spaces.dropWhile whitespace = [] := List.dropWhile_eq_nil_iff.mpr isBlank
    have token : dequoteToken spaces = ⟨[], .start, []⟩ := by
      rw [dequoteToken, skipped]
      rfl
    rw [appendField_read nonempty (by rw [token]; rfl), token]
    change appendField _ realname [] = _
    rw [appendField, if_pos rfl]
    rfl

/-- A field with a word is not blank. -/
theorem firstWord_nonblank {field : S8} {word : Word} {rest : S8}
    (first : FirstWord field word rest) : ∃ c ∈ field, whitespace c = false := by
  obtain ⟨spaces, _, nonempty, _, rfl⟩ := first
  obtain ⟨part, others, rfl⟩ := List.exists_cons_of_ne_nil nonempty
  obtain ⟨c, behind, same, solid⟩ := part.text_head []
  rw [List.append_nil] at same
  exact ⟨c, by simp [Word.text, same], solid⟩

/-- A field whose first word is closed adds its argument and goes on behind it. -/
theorem appendField_word {field : S8} {word : Word} {rest : S8}
    (first : FirstWord field word rest) (f : Filter) (args : Args) (realname : S8) :
    appendField ⟨args, f⟩ realname field =
      appendField ⟨args.appendArgs ([word.arg].filter (filterOk f)), f⟩ realname rest := by
  have token := dequoteToken_result_word first
  have nonempty : field ≠ [] := by
    rintro rfl
    obtain ⟨c, member, _⟩ := firstWord_nonblank first
    cases member
  rw [appendField_read nonempty (by rw [token]; rfl), token]
  rfl

/-- A field of words adds their arguments and an empty argument for trailing whitespace. -/
theorem appendField_words {field : S8} {words : List Word} {trailing : S8}
    (fieldWords : FieldWords field words trailing) (f : Filter) (args : Args) (realname : S8) :
    appendField ⟨args, f⟩ realname field = .ok ⟨args.appendArgs
      ((words.map Word.arg ++ if trailing = [] then [] else [[]]).filter (filterOk f)), f⟩ := by
  induction fieldWords generalizing args with
  | blank isBlank => exact appendField_blank isBlank f args realname
  | word isBlank nonempty stops others ih =>
      rw [appendField_word ⟨_, isBlank, nonempty, stops, rfl⟩, ih, ← appendArgs_append,
        ← List.filter_append]
      rfl

/-- A field with an open quote is reported. -/
theorem appendField_open {field : S8} {words : List Word} (fieldOpen : FieldOpen field words)
    (f : Filter) (args : Args) (realname : S8) : appendField ⟨args, f⟩ realname field =
      .error (.fail (.unmatchedQuote realname)) := by
  induction fieldOpen generalizing args with
  | quote isBlank word quotes inside =>
      have nonzero := isQuote_ne_zero quotes
      rw [← dequoteToken_unclosed isBlank word quotes inside] at nonzero
      exact appendField_failed (by simp) (by rw [DequoteScan.result, if_pos nonzero]; simp) _ _
  | word isBlank nonempty stops others ih =>
      exact (appendField_word ⟨_, isBlank, nonempty, stops, rfl⟩ f args realname).trans (ih _)

/-- The words of a field are added with their meanings. -/
theorem appendField_meanings {field : S8} {words : List Word} {trailing : S8}
    (fieldWords : FieldWords field words trailing) (args : Args) (realname : S8) :
    ∃ args' added, appendField ⟨args, .any⟩ realname field = .ok ⟨args', .any⟩ ∧
      args'.list = args.list ++ added ∧ added.map unescape =
        words.map Word.meaning ++ if trailing = [] then [] else [[]] := by
  have everything : ∀ items : List S8, items.filter (filterOk .any) = items :=
    fun items => List.filter_eq_self.mpr fun _ _ => rfl
  have denotes : unescape ∘ Word.arg = Word.meaning := funext Word.unescape_arg
  refine ⟨_, _, appendField_words fieldWords .any args realname, appendArgs_list _ _, ?_⟩
  rw [everything, List.map_append, List.map_map, denotes]
  split <;> rfl

/-- A field with trailing whitespace adds more than its words. -/
theorem WordsRead.trailing_nil {field : S8} (read : WordsRead field) {words : List Word}
    {trailing : S8} (fieldWords : FieldWords field words trailing) : trailing = [] := by
  by_contra trails
  obtain ⟨args', added, appended, list, meanings⟩ := read.2.1 words trailing fieldWords .empty []
  obtain ⟨args'', added', appended', list', meanings'⟩ := appendField_meanings fieldWords .empty []
  rw [appended] at appended'
  cases appended'
  rw [list] at list'
  rw [← List.append_cancel_left list', meanings, if_neg trails] at meanings'
  have lengths := congrArg List.length meanings'
  simp at lengths

/-- The first word is always read, and all words are read unless whitespace trails behind them. -/
theorem dequote_words (field : S8) (nonblank : ∃ c ∈ field, whitespace c = false) :
    FirstWordRead field ∧ (WordsRead field ↔ ¬ EndsBlank field) := by
  refine ⟨firstWordRead nonblank, ?_, ?_⟩
  · intro read endsBlank
    obtain ⟨words, trailing, fieldWords, trails⟩ := endsBlank
    exact trails (read.trailing_nil fieldWords)
  · intro noTrail
    refine ⟨exists_fieldWords field, ?_, ?_⟩
    · intro words trailing fieldWords args realname
      have empty : trailing = [] := by
        by_contra trails
        exact noTrail ⟨words, trailing, fieldWords, trails⟩
      have appended := appendField_meanings fieldWords args realname
      rwa [if_pos empty, List.append_nil] at appended
    · intro words fieldOpen args realname
      exact appendField_open fieldOpen .any args realname

/-- A field whose only word is quoted in part. -/
theorem dequote_words_quoted : FirstWordRead (S "-Da='b c'") ∧
    (WordsRead (S "-Da='b c'") ↔ ¬ EndsBlank (S "-Da='b c'")) :=
  dequote_words (S "-Da='b c'") ⟨'-'.toUInt8, by decide, by decide⟩

/-- The word of one letter. -/
def letterWord : Word := [.bare 'a'.toUInt8 (by decide) (by decide) (by decide)]

/-- A field of one letter and a blank. -/
theorem fieldWords_letter : FieldWords (S "a ") [letterWord] (S " ") := by
  have space : FieldWords (S " ") [] (S " ") := .blank (by decide +kernel)
  have start : ∀ c ∈ ([] : S8), whitespace c = true := by decide +kernel
  have stops : WordEnd (S " ") := by
    intro c first
    cases first
    decide
  have nonempty : letterWord ≠ [] := List.cons_ne_nil _ _
  exact FieldWords.word start nonempty stops space

/-- A space behind the last word adds an empty argument. -/
theorem field_reads_blank : ¬ ∀ field : S8, '\\'.toUInt8 ∉ field →
    (∃ c ∈ field, whitespace c = false) → FirstWordRead field ∧ WordsRead field := by
  intro always
  have read := (always (S "a ") (by decide) ⟨'a'.toUInt8, by decide, by decide⟩).2
  cases read.trailing_nil fieldWords_letter

end UConfig
