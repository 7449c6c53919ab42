/-
This file proves which texts can be written in double quotes with backslash escapes.
-/

import UConfig.Proof.Dequote.OneWord

namespace UConfig

/-- These bytes are written with a backslash in front of them. -/
def needsBackslash (c : UInt8) : Bool := c == '\"'.toUInt8 || c == '\\'.toUInt8

def backslashed (w : S8) : S8 := w.flatMap fun c => if needsBackslash c then ['\\'.toUInt8, c] else [c]

/-- The text in double quotes, with a backslash before every double quote and every backslash. -/
def inDoubleQuotes (w : S8) : S8 := '\"'.toUInt8 :: backslashed w ++ ['\"'.toUInt8]

/-- A text without whitespace other than spaces and without bytes that encode others. -/
def Quotable (w : S8) : Prop :=
  ∀ c ∈ w, (whitespace c = true → c = ' '.toUInt8) ∧ encodingByte c = false

/-- A byte that is no code keeps its value in quotes when it is no other blank than a space. -/
theorem quotedValue_quotable : ∀ c, ((whitespace c = true → c = ' '.toUInt8) ∧
    encodingByte c = false) → quotedValue c = c :=
  forall_byte (by decide +kernel)

/-- Each byte with a backslash in front of it adds one backslash. -/
theorem count_backslashed (w : S8) : (backslashed w).count '\\'.toUInt8 =
    w.count '\\'.toUInt8 + w.countP needsBackslash := by
  induction w with
  | nil => rfl
  | cons c w ih =>
      rw [backslashed, List.flatMap_cons, List.count_append]
      change _ + (backslashed w).count _ = _
      rw [ih, List.count_cons, List.countP_cons]
      by_cases needs : needsBackslash c = true
      · rw [if_pos needs, if_pos needs, List.count_cons_self, List.count_singleton]
        omega
      · rw [if_neg needs, if_neg needs, List.count_singleton]
        omega

/-- Without special bytes no backslash is added. -/
theorem backslashed_of_none {w : S8} (none : ∀ c ∈ w, needsBackslash c = false) :
    backslashed w = w := by
  induction w with
  | nil => rfl
  | cons c w ih =>
      have rest := ih fun d member => none d (List.mem_cons_of_mem _ member)
      rw [backslashed, List.flatMap_cons, none c List.mem_cons_self]
      change c :: backslashed w = _
      rw [rest]

/-- The marks themselves are not blank. -/
theorem inDoubleQuotes_nonblank (w : S8) :
    ∃ c ∈ inDoubleQuotes w, whitespace c = false :=
  ⟨'\"'.toUInt8, List.mem_cons_self, by decide⟩

/-- A text in double quotes is dequoted to itself exactly when it needs no backslash. -/
theorem dequote_inDoubleQuotes (w : S8) (quotable : Quotable w) :
    DequotesTo (inDoubleQuotes w) w ↔ '\"'.toUInt8 ∉ w ∧ '\\'.toUInt8 ∉ w := by
  constructor
  · intro dequotes
    have count := dequotes.count_backslash (inDoubleQuotes_nonblank w)
    have last : ['\"'.toUInt8].count '\\'.toUInt8 = 0 := by decide
    rw [inDoubleQuotes, List.count_append, List.count_cons_of_ne (by decide), last,
      count_backslashed] at count
    have none : w.countP needsBackslash = 0 := by omega
    rw [List.countP_eq_zero] at none
    constructor
    · intro member
      exact none _ member (by decide)
    · intro member
      exact none _ member (by decide)
  · intro absent
    have none : ∀ c ∈ w, needsBackslash c = false := by
      intro c member
      rw [needsBackslash, Bool.or_eq_false_iff, beq_eq_false_iff_ne, beq_eq_false_iff_ne]
      constructor
      · rintro rfl
        exact absent.1 member
      · rintro rfl
        exact absent.2 member
    have values : w.map quotedValue = w := by
      apply (List.map_congr_left fun c member => quotedValue_quotable c (quotable c member)).trans
      exact List.map_id' w
    apply (dequotesTo_iff (inDoubleQuotes_nonblank w)).mpr
    refine ⟨[.double w absent.1], ⟨[], ?_, List.cons_ne_nil _ _, ?_, ?_⟩, ?_⟩
    · intro c member
      cases member
    · intro c found
      cases found
    · rw [inDoubleQuotes, backslashed_of_none none]
      simp [Word.text, Part.text]
    · rw [Word.meaning_cons, Part.meaning, values]
      exact List.append_nil w

/-- A word with blanks, a semicolon and a single quote comes back. -/
theorem dequote_inDoubleQuotes_spaces :
    DequotesTo (inDoubleQuotes (S "a b; c's")) (S "a b; c's") ↔
      '\"'.toUInt8 ∉ S "a b; c's" ∧ '\\'.toUInt8 ∉ S "a b; c's" := by
  apply dequote_inDoubleQuotes
  unfold Quotable
  decide +kernel

/-- The quotes of a quoted string end the double quotes around it. -/
theorem dequote_drops_quotes : ¬ ∀ w, Quotable w → DequotesTo (inDoubleQuotes w) w := by
  intro always
  have quotable : Quotable (S "\"s\"") := by
    unfold Quotable
    decide +kernel
  obtain ⟨arg, denotes, read⟩ := always (S "\"s\"") quotable
  have token := congrArg Dequoted.arg (read.unique (dequotesAs_token _))
  dsimp only at token
  rw [token] at denotes
  revert denotes
  decide +kernel

end UConfig
