/-
This file reads a value as its format describes it and proves what the scanner makes of it.
-/

import UConfig.Proof.ParsePackage.ScanEntry

namespace UConfig

/-- The bytes of a value come before the rest of the file. -/
def S8Pair.push (c : UInt8) (read : S8Pair) : S8Pair := ⟨c :: read.head, read.tail⟩

/-- A value ends at a newline or behind a comment.
Escaped newlines are left out, an escaped comment sign is one byte, and any other backslash is
a byte of the value. -/
def readValue : S8 → S8Pair
  | [] => ⟨[], []⟩
  | c :: rest =>
      if c = '\n'.toUInt8 then ⟨[], c :: rest⟩
      else if c = '#'.toUInt8 then ⟨[], skipComment (c :: rest)⟩
      else if c = '\\'.toUInt8 then
        if 0 < escaped (c :: rest) then readValue ((c :: rest).drop (escaped (c :: rest)))
        else if rest.head? = some '#'.toUInt8 then (readValue (rest.drop 1)).push '#'.toUInt8
        else (readValue rest).push c
      else (readValue rest).push c
termination_by p => p.length
decreasing_by all_goals (simp only [List.length_cons, List.length_drop]; omega)

/-- Any other byte belongs to the value. -/
theorem readValue_other {c : UInt8} (rest : S8) (notNewline : c ≠ '\n'.toUInt8)
    (notComment : c ≠ '#'.toUInt8) (notBackslash : c ≠ '\\'.toUInt8) :
    readValue (c :: rest) = (readValue rest).push c := by
  rw [readValue, if_neg notNewline, if_neg notComment, if_neg notBackslash]

/-- The text without the whitespace around it. -/
def trim (text : S8) : S8 := (text.dropWhile whitespace).rdropWhile whitespace

/-- The bytes that never move the end of a value. -/
def loose (c : UInt8) : Bool := whitespace c || c == '\\'.toUInt8

/-- A byte that is kept is kept in front. -/
theorem rdropWhile_cons_of_neg {α : Type} {drops : α → Bool} {head : α} (tail : List α)
    (kept : drops head = false) :
    (head :: tail).rdropWhile drops = head :: tail.rdropWhile drops := by
  induction tail using List.reverseRecOn with
  | nil => rw [List.rdropWhile_nil, List.rdropWhile_singleton, if_neg (by simp [kept])]
  | append_singleton tail last ih =>
      rw [← List.cons_append, List.rdropWhile_concat, List.rdropWhile_concat, ih]
      split <;> rfl

/-- A byte stays in front of a text that is kept. -/
theorem rdropWhile_cons_of_ne_nil {α : Type} {drops : α → Bool} (head : α) {tail : List α}
    (nonempty : tail.rdropWhile drops ≠ []) :
    (head :: tail).rdropWhile drops = head :: tail.rdropWhile drops := by
  induction tail using List.reverseRecOn with
  | nil => exact absurd (List.rdropWhile_nil _) nonempty
  | append_singleton tail last ih =>
      rw [← List.cons_append, List.rdropWhile_concat, List.rdropWhile_concat] at *
      split
      case isTrue dropped =>
        rw [if_pos dropped] at nonempty
        exact ih nonempty
      case isFalse => rfl

/-- Only a backslash before a newline escapes it. -/
theorem escaped_pos_iff {p : S8} : 0 < escaped p ↔
    (∃ rest, p = '\\'.toUInt8 :: '\n'.toUInt8 :: rest ∧ escaped p = 2) ∨
      ∃ rest, p = '\\'.toUInt8 :: '\r'.toUInt8 :: '\n'.toUInt8 :: rest ∧ escaped p = 3 := by
  constructor
  · intro positive
    unfold escaped at positive ⊢
    split
    case isTrue found =>
      obtain ⟨rest, shape⟩ := List.isPrefixOf_iff_prefix.mp found
      exact .inl ⟨rest, shape.symm, rfl⟩
    case isFalse other =>
      rw [if_neg other] at positive
      split
      case isTrue found =>
        obtain ⟨rest, shape⟩ := List.isPrefixOf_iff_prefix.mp found
        exact .inr ⟨rest, shape.symm, rfl⟩
      case isFalse none =>
        rw [if_neg none] at positive
        cases positive
  · rintro (⟨_, _, two⟩ | ⟨_, _, three⟩) <;> omega

theorem escaped_lf (p : S8) : escaped ('\\'.toUInt8 :: '\n'.toUInt8 :: p) = 2 := rfl

theorem escaped_crlf (p : S8) : escaped ('\\'.toUInt8 :: '\r'.toUInt8 :: '\n'.toUInt8 :: p) = 3 :=
  rfl

/-- An escape at the beginning stays one when more bytes follow. -/
theorem escaped_append {p rest : S8} (zero : ¬0 < escaped (p ++ rest)) : ¬0 < escaped p := by
  intro positive
  apply zero
  rcases escaped_pos_iff.mp positive with ⟨behind, rfl, _⟩ | ⟨behind, rfl, _⟩
  · exact Nat.zero_lt_two
  · exact Nat.zero_lt_succ 2

/-- Any other byte is copied. -/
theorem stripEscapes_other {c : UInt8} (p : S8) (other : c ≠ '\\'.toUInt8) :
    stripEscapes (c :: p) = c :: stripEscapes p := by
  rw [stripEscapes, if_neg other]

/-- A backslash before a line feed is dropped with it. -/
theorem stripEscapes_lf (p : S8) :
    stripEscapes ('\\'.toUInt8 :: '\n'.toUInt8 :: p) = stripEscapes p := by
  rw [stripEscapes, if_pos rfl, escaped_lf]
  rfl

/-- A backslash before a carriage return and a line feed is dropped with both. -/
theorem stripEscapes_crlf (p : S8) :
    stripEscapes ('\\'.toUInt8 :: '\r'.toUInt8 :: '\n'.toUInt8 :: p) = stripEscapes p := by
  rw [stripEscapes, if_pos rfl, escaped_crlf]
  rfl

/-- A backslash before a comment sign is dropped. -/
theorem stripEscapes_comment (p : S8) :
    stripEscapes ('\\'.toUInt8 :: '#'.toUInt8 :: p) = '#'.toUInt8 :: stripEscapes p := by
  rw [stripEscapes, if_pos rfl, List.head?_cons]
  exact (if_neg (Nat.lt_irrefl 0)).trans ((if_pos rfl).trans (stripEscapes_other p (by decide)))

/-- Any other backslash is copied. -/
theorem stripEscapes_backslash {p : S8} (zero : ¬0 < escaped ('\\'.toUInt8 :: p))
    (plain : p.head? ≠ some '#'.toUInt8) :
    stripEscapes ('\\'.toUInt8 :: p) = '\\'.toUInt8 :: stripEscapes p := by
  rw [stripEscapes, if_pos rfl, if_neg zero, if_neg plain]

/-- A scan that has found an escape keeps it. -/
theorem scanValue_cleanup (p finish : S8) {cleanup : Bool} (found : cleanup = true) :
    (scanValue p finish cleanup).cleanup = true := by
  fun_induction scanValue p finish cleanup with
  | case1 => exact found
  | case2 => exact found
  | case3 => exact found
  | case4 _ _ _ _ _ _ _ ih => exact ih rfl
  | case5 _ _ _ _ _ _ _ ih => exact ih (by rw [found]; rfl)
  | case6 _ _ _ _ _ _ _ ih => exact ih found

/-- The scan from a pointer on either has not moved the end of the value, or the bytes in front
of the end hold the text.
Without an escape the bytes are the text. -/
def Finds (p finish text : S8) (scan : ValueScan) : Prop :=
  (∀ c ∈ text, loose c = true) ∧ scan.finish = finish ∨
    ∃ kept, p = kept ++ scan.finish ∧ stripEscapes kept = text.rdropWhile loose ∧
      text.rdropWhile loose ≠ [] ∧ (scan.cleanup = false → kept = text.rdropWhile loose)

/-- The end moves behind a byte that is not loose, which may be escaped. -/
theorem Finds.solid {p finish text sign : S8} {scan : ValueScan} {c : UInt8}
    (finds : Finds p p text scan) (isSolid : loose c = false)
    (stripped : ∀ kept, stripEscapes (sign ++ kept) = c :: stripEscapes kept)
    (clean : scan.cleanup = false → sign = [c]) : Finds (sign ++ p) finish (c :: text) scan := by
  have shape := rdropWhile_cons_of_neg text isSolid
  right
  rcases finds with ⟨allLoose, stays⟩ | ⟨kept, rfl, holds, _, isClean⟩
  · have dropped : text.rdropWhile loose = [] := List.rdropWhile_eq_nil_iff.mpr allLoose
    rw [shape, dropped]
    refine ⟨sign, by rw [stays], ?_, List.cons_ne_nil _ _, clean⟩
    have alone := stripped []
    rwa [List.append_nil, stripEscapes] at alone
  · rw [shape]
    refine ⟨sign ++ kept, by rw [List.append_assoc], by rw [stripped, holds],
      List.cons_ne_nil _ _, fun unescaped => ?_⟩
    rw [clean unescaped, ← isClean unescaped]
    rfl

/-- A loose byte is kept when the end moves later on. -/
theorem Finds.loose {p finish text : S8} {scan : ValueScan} {c : UInt8}
    (finds : Finds p finish text scan) (isLoose : UConfig.loose c = true)
    (stripped : ∀ kept rest, p = kept ++ rest → kept ≠ [] →
      stripEscapes (c :: kept) = c :: stripEscapes kept) :
    Finds (c :: p) finish (c :: text) scan := by
  rcases finds with ⟨allLoose, stays⟩ | ⟨kept, shape, holds, nonempty, isClean⟩
  · exact .inl ⟨List.forall_mem_cons.mpr ⟨isLoose, allLoose⟩, stays⟩
  · have keptNonempty : kept ≠ [] := by
      rintro rfl
      rw [stripEscapes] at holds
      exact nonempty holds.symm
    right
    rw [rdropWhile_cons_of_ne_nil c nonempty]
    refine ⟨c :: kept, by rw [shape]; rfl, by rw [stripped kept _ shape keptNonempty, holds],
      List.cons_ne_nil _ _, fun unescaped => by rw [isClean unescaped]⟩

/-- An escaped newline is no part of the text. -/
theorem Finds.escape {p finish text : S8} {scan : ValueScan}
    (finds : Finds p finish text scan) (sign : S8)
    (stripped : ∀ kept, stripEscapes (sign ++ kept) = stripEscapes kept)
    (found : scan.cleanup = true) : Finds (sign ++ p) finish text scan := by
  rcases finds with unmoved | ⟨kept, rfl, holds, nonempty, _⟩
  · exact .inl unmoved
  · right
    refine ⟨sign ++ kept, by rw [List.append_assoc], by rw [stripped, holds], nonempty, ?_⟩
    intro unescaped
    rw [found] at unescaped
    cases unescaped

/-- The scan ends where the value does and finds its text. -/
theorem scanValue_reads (p finish : S8) (cleanup : Bool) :
    (scanValue p finish cleanup).p = (readValue p).tail ∧
      Finds p finish (readValue p).head (scanValue p finish cleanup) := by
  fun_induction scanValue p finish cleanup with
  | case1 finish cleanup =>
      rw [readValue]
      exact ⟨rfl, .inl ⟨by simp, rfl⟩⟩
  | case2 finish cleanup rest =>
      rw [readValue, if_pos rfl]
      exact ⟨rfl, .inl ⟨by simp, rfl⟩⟩
  | case3 finish cleanup rest notNewline =>
      rw [readValue, if_neg notNewline, if_pos rfl]
      exact ⟨rfl, .inl ⟨by simp, rfl⟩⟩
  | case4 rest finish cleanup sign r notNewline notComment ih =>
      obtain ⟨tail, rfl⟩ := List.head?_eq_some_iff.mp sign
      have read : readValue ('\\'.toUInt8 :: '#'.toUInt8 :: tail) =
          (readValue tail).push '#'.toUInt8 := by
        rw [readValue, if_neg notNewline, if_neg notComment, if_pos rfl, if_pos sign]
        exact if_neg (Nat.lt_irrefl 0)
      change (scanValue tail tail true).p = _ ∧ Finds tail tail _ (scanValue tail tail true) at ih
      change (scanValue tail tail true).p = _ ∧ Finds (S "\\#" ++ tail) _ _ (scanValue tail tail true)
      rw [read]
      refine ⟨ih.1, ih.2.solid (by decide) stripEscapes_comment fun unescaped => ?_⟩
      rw [scanValue_cleanup tail tail rfl] at unescaped
      cases unescaped
  | case5 rest finish cleanup noSign notNewline notComment r ih =>
      rw [readValue, if_neg notNewline, if_neg notComment, if_pos rfl]
      by_cases positive : 0 < escaped ('\\'.toUInt8 :: rest)
      · have found : (cleanup || decide (0 < r)) = true := by
          rw [Bool.or_eq_true, decide_eq_true_eq]
          exact .inr positive
        have length : r - 1 + 1 = escaped ('\\'.toUInt8 :: rest) := Nat.succ_pred_eq_of_pos positive
        rw [if_pos positive]
        rw [length] at ih ⊢
        rcases escaped_pos_iff.mp positive with ⟨behind, shape, two⟩ | ⟨behind, shape, three⟩
        · rw [two, shape] at ih ⊢
          exact ⟨ih.1, ih.2.escape (S "\\\n") stripEscapes_lf (scanValue_cleanup _ _ found)⟩
        · rw [three, shape] at ih ⊢
          exact ⟨ih.1, ih.2.escape (S "\\\r\n") stripEscapes_crlf
            (scanValue_cleanup _ _ found)⟩
      · have zero : r - 1 + 1 = 1 := by
          change ¬0 < r at positive
          omega
        rw [if_neg positive, if_neg noSign]
        rw [zero] at ih ⊢
        refine ⟨ih.1, ih.2.loose (by decide) ?_⟩
        intro kept behind shape nonempty
        rw [List.drop_one, List.tail_cons] at shape
        subst shape
        rw [List.head?_append_of_ne_nil _ nonempty] at noSign
        exact stripEscapes_backslash (escaped_append positive) noSign
  | case6 c rest finish cleanup notNewline notComment notBackslash ih =>
      rw [readValue_other rest notNewline notComment notBackslash]
      simp only [dite_eq_ite] at ih
      refine ⟨ih.1, ?_⟩
      by_cases space : whitespace c
      · rw [if_pos space] at ih ⊢
        exact ih.2.loose (by rw [loose, space]; rfl) fun _ _ _ _ => stripEscapes_other _ notBackslash
      · have isSolid : loose c = false := by simp [loose, space, notBackslash]
        rw [if_neg space] at ih ⊢
        exact ih.2.solid isSolid (fun kept => stripEscapes_other kept notBackslash) fun _ => rfl

/-- A value leaves a text that is no longer. -/
theorem readValue_length (p : S8) : (readValue p).tail.length ≤ p.length := by
  rw [← (scanValue_reads p p false).1]
  exact scanValue_length p p false

/-- The stored value is the text without the loose bytes behind it. -/
theorem scanValue_value_eq (beg : S8) :
    (scanValue beg beg false).value beg = (readValue beg).head.rdropWhile loose := by
  rw [ValueScan.value]
  rcases (scanValue_reads beg beg false).2 with ⟨allLoose, stays⟩ | ⟨kept, shape, holds, _, clean⟩
  · have empty : span beg beg = [] := span_append [] beg
    rw [stays, empty, List.rdropWhile_eq_nil_iff.mpr allLoose, stripEscapes, ite_self]
  · have cut := span_append kept (scanValue beg beg false).finish
    rw [← shape] at cut
    rw [cut]
    split
    case isTrue => exact holds
    case isFalse unescaped => exact clean (by simpa using unescaped)

/-- The skipped bytes are the whitespace in front of the text. -/
theorem readValue_skipLeading (p : S8) : readValue (skipLeading p) =
    ⟨(readValue p).head.dropWhile whitespace, (readValue p).tail⟩ := by
  induction p using skipLeading.induct with
  | case1 =>
      rw [skipLeading, readValue]
      rfl
  | case2 rest r positive ih =>
      rw [skipLeading, if_pos rfl, if_pos positive, ih]
      conv_rhs => rw [readValue, if_neg (by decide), if_neg (by decide), if_pos rfl, if_pos positive]
  | case3 rest r zero =>
      rw [skipLeading, if_pos rfl, if_neg zero, readValue, if_neg (by decide), if_neg (by decide),
        if_pos rfl, if_neg zero]
      split <;> rfl
  | case4 c rest other stops =>
      rw [skipLeading, if_neg other, if_pos stops, readValue]
      split
      case isTrue => rfl
      case isFalse notNewline =>
        split
        case isTrue => rfl
        case isFalse =>
          have solid : ¬whitespace c := by simpa [notNewline] using stops
          rw [S8Pair.push, List.dropWhile_cons_of_neg solid]
  | case5 c rest other goes ih =>
      have space : c ≠ '\n'.toUInt8 ∧ whitespace c = true := by simpa using goes
      have notComment : c ≠ '#'.toUInt8 := by
        rintro rfl
        cases space.2
      rw [skipLeading, if_neg other, if_neg goes, ih]
      rw [readValue_other rest space.1 notComment other, S8Pair.push,
        List.dropWhile_cons_of_pos space.2]

/-- The value behind a separator is read with its end, and loose bytes at its end are lost. -/
theorem scanValue_skipLeading (p : S8) :
    (scanValue (skipLeading p) (skipLeading p) false).p = (readValue p).tail ∧
      (scanValue (skipLeading p) (skipLeading p) false).value (skipLeading p) =
        ((readValue p).head.dropWhile whitespace).rdropWhile loose := by
  rw [(scanValue_reads _ _ _).1, scanValue_value_eq, readValue_skipLeading]
  exact ⟨rfl, rfl⟩

end UConfig
