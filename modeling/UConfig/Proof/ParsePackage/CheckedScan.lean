/-
This file proves that no check of the scanner fails and that it scans what the scanner without
pointers does.
-/

import UConfig.Program.CheckedScan

namespace UConfig

namespace Checked

/-- A value goes on with the rest. -/
theorem ok_bind {Value Result : Type} (value : Value) (rest : Value → Except Stop Result) :
    (Except.ok value >>= rest) = rest value := rfl

/-- Where a rest of the file begins. -/
def place (src rest : S8) : Nat := src.length - rest.length

section Places

variable {src rest : S8} {c : UInt8}

/-- The empty rest begins at the end. -/
theorem place_nil (src : S8) : place src [] = src.length := Nat.sub_zero _

/-- A rest begins inside of the file. -/
theorem place_le (src rest : S8) : place src rest ≤ src.length := Nat.sub_le _ _

/-- The whole file begins at its start. -/
theorem place_self (src : S8) : place src src = 0 := Nat.sub_self _

/-- What begins at the place of a rest is the rest. -/
theorem drop_place (isRest : rest <:+ src) : src.drop (place src rest) = rest :=
  (List.suffix_iff_eq_drop.mp isRest).symm

/-- A dropped part moves the place on. -/
theorem place_drop (isRest : rest <:+ src) (count : Nat) (fits : count ≤ rest.length) :
    place src (rest.drop count) = place src rest + count := by
  have length := isRest.length_le
  rw [place, place, List.length_drop]
  omega

/-- The tail of a rest is a rest. -/
theorem tail_suffix (isRest : c :: rest <:+ src) : rest <:+ src :=
  (List.suffix_cons c rest).trans isRest

/-- The tail begins one byte later. -/
theorem place_tail (isRest : c :: rest <:+ src) : place src (c :: rest) + 1 = place src rest :=
  (place_drop isRest 1 (Nat.succ_pos _)).symm

/-- A rest that is not empty begins before the end. -/
theorem place_lt (isRest : c :: rest <:+ src) : place src (c :: rest) < src.length := by
  have further := place_tail isRest
  have inside := place_le src rest
  omega

/-- A read at the place of a rest gives its first byte. -/
theorem deref_place (isRest : c :: rest <:+ src) : deref src (place src (c :: rest)) = .ok c := by
  have head : src[place src (c :: rest)]? = some c := by
    rw [← List.head?_drop, drop_place isRest, List.head?_cons]
  rw [deref, head]

end Places

section Views

variable {src text : S8} {s : View}

/-- A view reads its text when it lies inside of the file. -/
theorem View.read_eq_ok : s.read src = .ok text ↔
    s.s + s.len ≤ src.length ∧ (src.drop s.s).take s.len = text := by
  rw [View.read]
  split
  case isTrue inside => simp [inside]
  case isFalse outside => simp [outside]

/-- The text has the length of the view. -/
theorem View.length_read (shown : s.read src = .ok text) : text.length = s.len := by
  obtain ⟨inside, rfl⟩ := View.read_eq_ok.mp shown
  rw [List.length_take, List.length_drop]
  omega

/-- The head of a view reads the first part of its text. -/
theorem takeHead_read (shown : s.read src = .ok text) {len : Nat} (fits : len ≤ text.length) :
    ∃ head, takeHead s len = .ok head ∧ head.read src = .ok (text.take len) := by
  rw [View.length_read shown] at fits
  obtain ⟨inside, rfl⟩ := View.read_eq_ok.mp shown
  refine ⟨_, if_pos fits, View.read_eq_ok.mpr ⟨?_, ?_⟩⟩
  · change s.s + len ≤ src.length
    omega
  · rw [List.take_take, Nat.min_eq_left fits]

/-- A view without its head reads the rest of its text. -/
theorem cutHead_read (shown : s.read src = .ok text) {off : Nat} (fits : off ≤ text.length) :
    ∃ tail, cutHead s off = .ok tail ∧ tail.read src = .ok (text.drop off) := by
  rw [View.length_read shown] at fits
  obtain ⟨inside, rfl⟩ := View.read_eq_ok.mp shown
  refine ⟨_, if_pos fits, View.read_eq_ok.mpr ⟨?_, ?_⟩⟩
  · change s.s + off + (s.len - off) ≤ src.length
    omega
  · rw [List.drop_take, List.drop_drop]

/-- The string between two pointers. -/
theorem s8Span_place {beg finish : S8} (begins : beg <:+ src) (ends : finish <:+ beg) :
    ∃ s, s8Span src (place src beg) (place src finish) = .ok s ∧
      s.read src = .ok (span beg finish) := by
  have length := begins.length_le
  have shorter := ends.length_le
  have inside : place src beg ≤ place src finish ∧ place src finish ≤ src.length := by
    rw [place, place]
    omega
  have distance : place src finish - place src beg = beg.length - finish.length := by
    rw [place, place]
    omega
  refine ⟨_, if_pos inside, View.read_eq_ok.mpr ⟨?_, ?_⟩⟩
  · change place src beg + (place src finish - place src beg) ≤ src.length
    omega
  · rw [drop_place begins, distance, span]

/-- The string from a pointer to the end of the file. -/
theorem s8Span_rest {rest : S8} (isRest : rest <:+ src) :
    ∃ s, s8Span src (place src rest) src.length = .ok s ∧ s.read src = .ok rest := by
  obtain ⟨s, spanned, shown⟩ := s8Span_place isRest (List.nil_suffix (l := rest))
  rw [place_nil] at spanned
  have whole : span rest [] = rest := List.take_length
  rw [whole] at shown
  exact ⟨s, spanned, shown⟩

/-- The check of a prefix stays inside of the view. -/
theorem startsWith_read (shown : s.read src = .ok text) (head : S8) :
    startsWith src s head = .ok (UConfig.startsWith text head) := by
  have length := View.length_read shown
  rw [startsWith]
  by_cases fits : head.length ≤ s.len
  · obtain ⟨taken, took, bytes⟩ := takeHead_read shown (fits.trans_eq length.symm)
    rw [if_pos fits, took, ok_bind, bytes, ok_bind]
    have same : (text.take head.length == head) = UConfig.startsWith text head := by
      rw [Bool.eq_iff_iff, beq_iff_eq, UConfig.startsWith, List.isPrefixOf_iff_prefix,
        List.prefix_iff_eq_take]
      exact eq_comm
    rw [same]
    rfl
  · have differs : UConfig.startsWith text head = false := by
      rw [← Bool.not_eq_true, UConfig.startsWith, List.isPrefixOf_iff_prefix]
      intro isHead
      exact fits (isHead.length_le.trans_eq length)
    rw [if_neg fits, differs]
    rfl

/-- The check of an escape stays inside of the view. -/
theorem escaped_read (shown : s.read src = .ok text) :
    escaped src s = .ok (UConfig.escaped text) := by
  rw [escaped, startsWith_read shown, ok_bind, startsWith_read shown, UConfig.escaped]
  cases UConfig.startsWith text (S "\\\n") with
  | true => rfl
  | false =>
      cases UConfig.startsWith text (S "\\\r\n") with
      | true => rfl
      | false => rfl

end Views

/-- The escape bytes are bytes of the string. -/
theorem escaped_le (text : S8) : UConfig.escaped text ≤ text.length := by
  have starts : ∀ head : S8, UConfig.startsWith text head = true → head.length ≤ text.length :=
    fun head isHead => (List.isPrefixOf_iff_prefix.mp isHead).length_le
  rw [UConfig.escaped]
  split
  case isTrue newline => exact starts _ newline
  case isFalse =>
    split
    case isTrue crlf => exact starts _ crlf
    case isFalse => exact Nat.zero_le _

/-- The check of a comment stays inside of the file. -/
theorem commentSign_place {src rest : S8} (isRest : rest <:+ src) :
    commentSign src (place src rest) src.length =
      .ok (decide (rest.head? = some '#'.toUInt8)) := by
  rw [commentSign]
  cases rest with
  | nil =>
      rw [place_nil, if_neg (Nat.lt_irrefl _)]
      rfl
  | cons c rest =>
      rw [if_pos (place_lt isRest), deref_place isRest, ok_bind, List.head?_cons]
      simp only [Option.some.injEq]
      rfl

section Loops

variable {src : S8}

/-- The checked skip of blanks is the plain one. -/
theorem skipSpace_place {rest : S8} (isRest : rest <:+ src) :
    skipSpace src (place src rest) = .ok (place src (rest.dropWhile whitespace)) := by
  induction rest with
  | nil =>
      rw [skipSpace, place_nil, if_neg (Nat.lt_irrefl _)]
      exact congrArg Except.ok (place_nil src).symm
  | cons c rest ih =>
      rw [skipSpace, if_pos (place_lt isRest), deref_place isRest, ok_bind, List.dropWhile_cons]
      by_cases isSpace : whitespace c = true
      · rw [if_pos isSpace, if_pos isSpace, place_tail isRest]
        exact ih (tail_suffix isRest)
      · rw [if_neg isSpace, if_neg isSpace]
        rfl

/-- The checked skip of a comment is the plain one. -/
theorem skipComment_place {rest : S8} (isRest : rest <:+ src) :
    skipComment src (place src rest) = .ok (place src (UConfig.skipComment rest)) := by
  induction rest with
  | nil =>
      rw [skipComment, place_nil, if_neg (Nat.lt_irrefl _)]
      exact congrArg Except.ok (place_nil src).symm
  | cons c rest ih =>
      rw [skipComment, if_pos (place_lt isRest), deref_place isRest, ok_bind, place_tail isRest]
      by_cases isNewline : c = '\n'.toUInt8
      · have ends : UConfig.skipComment (c :: rest) = rest := by
          rw [UConfig.skipComment, List.dropWhile_cons_of_neg (by simp [isNewline]),
            List.drop_succ_cons, List.drop_zero]
        rw [if_pos isNewline, ends]
        rfl
      · have goes : UConfig.skipComment (c :: rest) = UConfig.skipComment rest := by
          rw [UConfig.skipComment, List.dropWhile_cons_of_pos (by simp [isNewline]),
            UConfig.skipComment]
        rw [if_neg isNewline, goes]
        exact ih (tail_suffix isRest)

/-- The scan of a name with pointers to where the parts of the file begin. -/
def NameScan.of (src : S8) (scan : UConfig.NameScan) : NameScan :=
  ⟨place src scan.p, place src scan.finish, scan.c⟩

/-- The checked scan of a name is the plain one. -/
theorem scanName_place {rest : S8} (isRest : rest <:+ src) (finish : S8) (c : UInt8) :
    scanName src (place src rest) (place src finish) c =
      .ok (.of src (UConfig.scanName rest finish c)) := by
  induction rest generalizing finish c with
  | nil =>
      rw [scanName, place_nil, if_neg (Nat.lt_irrefl _), UConfig.scanName, NameScan.of, place_nil]
      rfl
  | cons d rest ih =>
      rw [scanName, if_pos (place_lt isRest), deref_place isRest, ok_bind, UConfig.scanName,
        place_tail isRest]
      by_cases stops : d = '\n'.toUInt8 ∨ d = '='.toUInt8 ∨ d = ':'.toUInt8
      · rw [if_pos stops, if_pos stops]
        rfl
      · rw [if_neg stops, if_neg stops, ← apply_ite (place src)]
        exact ih (tail_suffix isRest) _ _

/-- The checked skip before a value is the plain one. -/
theorem skipLeading_place {rest : S8} (isRest : rest <:+ src) :
    skipLeading src (place src rest) = .ok (place src (UConfig.skipLeading rest)) := by
  induction rest using UConfig.skipLeading.induct with
  | case1 =>
      rw [skipLeading, place_nil, if_neg (Nat.lt_irrefl _), UConfig.skipLeading, place_nil]
      rfl
  | case2 rest r positive ih =>
      obtain ⟨s, spanned, shown⟩ := s8Span_rest isRest
      rw [skipLeading, if_pos (place_lt isRest), deref_place isRest, ok_bind, if_pos rfl, spanned,
        ok_bind, escaped_read shown, ok_bind, if_pos positive, UConfig.skipLeading, if_pos rfl,
        if_pos positive, ← place_drop isRest _ (escaped_le _)]
      exact ih ((List.drop_suffix _ _).trans isRest)
  | case3 rest r zero =>
      obtain ⟨s, spanned, shown⟩ := s8Span_rest isRest
      rw [skipLeading, if_pos (place_lt isRest), deref_place isRest, ok_bind, if_pos rfl, spanned,
        ok_bind, escaped_read shown, ok_bind, if_neg zero, UConfig.skipLeading, if_pos rfl,
        if_neg zero]
      rfl
  | case4 c rest other stops =>
      rw [skipLeading, if_pos (place_lt isRest), deref_place isRest, ok_bind, if_neg other,
        if_pos stops, UConfig.skipLeading, if_neg other, if_pos stops]
      rfl
  | case5 c rest other goes ih =>
      rw [skipLeading, if_pos (place_lt isRest), deref_place isRest, ok_bind, if_neg other,
        if_neg goes, UConfig.skipLeading, if_neg other, if_neg goes, place_tail isRest]
      exact ih (tail_suffix isRest)

/-- The scan of a value with pointers to where the parts of the file begin. -/
def ValueScan.of (src : S8) (scan : UConfig.ValueScan) : ValueScan :=
  ⟨place src scan.p, place src scan.finish, scan.cleanup⟩

/-- The checked scan of a value is the plain one. -/
theorem scanValue_place {rest : S8} (isRest : rest <:+ src) (finish : S8) (cleanup : Bool) :
    scanValue src (place src rest) (place src finish) cleanup =
      .ok (.of src (UConfig.scanValue rest finish cleanup)) := by
  have dropped : ∀ {rest : S8}, rest <:+ src → rest ≠ [] →
      place src rest + (UConfig.escaped rest - 1) + 1 =
        place src (rest.drop (UConfig.escaped rest - 1 + 1)) := by
    intro rest isRest nonempty
    have positive := List.length_pos_of_ne_nil nonempty
    have fits := escaped_le rest
    rw [place_drop isRest _ (by omega), Nat.add_assoc]
  fun_induction UConfig.scanValue rest finish cleanup with
  | case1 finish cleanup =>
      rw [scanValue, place_nil, if_neg (Nat.lt_irrefl _), ValueScan.of, place_nil]
      rfl
  | case2 rest finish cleanup =>
      rw [scanValue, if_pos (place_lt isRest), deref_place isRest, ok_bind, if_pos rfl]
      rfl
  | case3 rest finish cleanup notNewline =>
      rw [scanValue, if_pos (place_lt isRest), deref_place isRest, ok_bind, if_neg notNewline,
        if_pos rfl, skipComment_place isRest]
      rfl
  | case4 rest finish cleanup sign r notNewline notComment ih =>
      obtain ⟨s, spanned, shown⟩ := s8Span_rest (tail_suffix isRest)
      have nonempty : rest ≠ [] := by
        rintro rfl
        cases sign
      have next := place_drop (tail_suffix isRest) 1 (List.length_pos_of_ne_nil nonempty)
      rw [scanValue, if_pos (place_lt isRest), deref_place isRest, ok_bind, if_neg notNewline,
        if_neg notComment, if_pos rfl, place_tail isRest, commentSign_place (tail_suffix isRest),
        ok_bind, if_pos (decide_eq_true sign), spanned, ok_bind, escaped_read shown, ok_bind,
        dropped (tail_suffix isRest) nonempty, ← next]
      exact ih ((List.drop_suffix _ _).trans (tail_suffix isRest))
  | case5 rest finish cleanup noSign notNewline notComment r ih =>
      obtain ⟨s, spanned, shown⟩ := s8Span_rest isRest
      rw [scanValue, if_pos (place_lt isRest), deref_place isRest, ok_bind, if_neg notNewline,
        if_neg notComment, if_pos rfl, place_tail isRest, commentSign_place (tail_suffix isRest),
        ok_bind, if_neg (by simp [noSign]), spanned, ok_bind, escaped_read shown, ok_bind,
        dropped isRest (List.cons_ne_nil _ _)]
      exact ih ((List.drop_suffix _ _).trans isRest)
  | case6 c rest finish cleanup notNewline notComment other ih =>
      rw [scanValue, if_pos (place_lt isRest), deref_place isRest, ok_bind, if_neg notNewline,
        if_neg notComment, if_neg other, place_tail isRest, ← apply_ite (place src)]
      exact ih (tail_suffix isRest)

end Loops

section Copies

variable {src text : S8} {s : View}

/-- A read inside of a view gives the byte of its text. -/
theorem deref_view (shown : s.read src = .ok text) {b : UInt8} {rest : S8} {i : Nat}
    (isRest : text.drop i = b :: rest) : i < s.len ∧ deref src (s.s + i) = .ok b := by
  have found : text[i]? = some b := by rw [← List.head?_drop, isRest, List.head?_cons]
  obtain ⟨inside, isByte⟩ := List.getElem?_eq_some_iff.mp found
  rw [View.length_read shown] at inside
  obtain ⟨fits, shows⟩ := View.read_eq_ok.mp shown
  rw [← shows, List.getElem?_take_of_lt inside, List.getElem?_drop] at found
  exact ⟨inside, by rw [deref, found]⟩

/-- Behind the first byte of a rest stands its tail. -/
theorem drop_succ_of_cons {b : UInt8} {rest : S8} {i : Nat} (isRest : text.drop i = b :: rest) :
    text.drop (i + 1) = rest := by
  rw [← List.drop_drop, isRest, List.drop_succ_cons, List.drop_zero]

/-- The check of a comment stays inside of the view. -/
theorem commentSign_view (shown : s.read src = .ok text) {rest : S8} {i : Nat}
    (isRest : text.drop i = rest) :
    commentSign src (s.s + i) (s.s + s.len) =
      .ok (decide (rest.head? = some '#'.toUInt8)) := by
  rw [commentSign]
  cases rest with
  | nil =>
      have outside := List.drop_eq_nil_iff.mp isRest
      rw [View.length_read shown] at outside
      rw [if_neg (by omega)]
      rfl
  | cons c rest =>
      obtain ⟨inside, read⟩ := deref_view shown isRest
      rw [if_pos (Nat.add_lt_add_left inside _), read, ok_bind, List.head?_cons]
      simp only [Option.some.injEq]
      rfl

/-- The copy of the bytes before an index is not longer than they are. -/
structure Copied (s : View) (i : Nat) (copy : Copy) (bytes : S8) : Prop where
  room : copy.c.length = s.len
  behind : copy.len ≤ i
  written : copy.c.take copy.len = bytes

/-- A copy stays right when the reader moves on. -/
theorem Copied.skip {copy : Copy} {bytes : S8} {i j : Nat} (copied : Copied s i copy bytes)
    (further : i ≤ j) : Copied s j copy bytes :=
  ⟨copied.room, copied.behind.trans further, copied.written⟩

/-- A byte before the end can be stored. -/
theorem Copied.store {copy : Copy} {bytes : S8} {i : Nat} (copied : Copied s i copy bytes)
    (inside : i < s.len) (b : UInt8) :
    ∃ copy', copy.store b = .ok copy' ∧ Copied s (i + 1) copy' (bytes ++ [b]) := by
  have room : copy.len < copy.c.length := by
    have behind := copied.behind
    have length := copied.room
    omega
  refine ⟨_, if_pos room, ?_, Nat.succ_le_succ copied.behind, ?_⟩
  · rw [List.length_set]
    exact copied.room
  · rw [List.take_succ_eq_append_getElem (by rw [List.length_set]; exact room),
      List.getElem_set_self, List.take_set_of_le (Nat.le_refl _), copied.written]

/-- What the loop does at a backslash depends on the rest of the string only. -/
theorem copyLoop_backslash (shown : s.read src = .ok text) {rest : S8} {i : Nat}
    (isRest : text.drop i = '\\'.toUInt8 :: rest) (copy : Copy) :
    copyLoop src s i copy =
      if 0 < UConfig.escaped ('\\'.toUInt8 :: rest) then
        copyLoop src s (i + (UConfig.escaped ('\\'.toUInt8 :: rest) - 1) + 1) copy
      else if rest.head? = some '#'.toUInt8 then copyLoop src s (i + 1) copy
      else copy.store '\\'.toUInt8 >>= fun copy => copyLoop src s (i + 1) copy := by
  obtain ⟨before, read⟩ := deref_view shown isRest
  obtain ⟨ahead, cut, aheadShown⟩ :=
    cutHead_read shown (before.le.trans_eq (View.length_read shown).symm)
  rw [isRest] at aheadShown
  rw [copyLoop, if_pos before, read, ok_bind, if_pos rfl, cut, ok_bind, escaped_read aheadShown,
    ok_bind, commentSign_view shown (drop_succ_of_cons isRest), ok_bind]
  simp only [decide_eq_true_eq]

/-- The loop copies the rest of a string without its escapes. -/
theorem copyLoop_copied (shown : s.read src = .ok text) {rest bytes : S8} {i : Nat} {copy : Copy}
    (isRest : text.drop i = rest) (inside : i ≤ s.len) (copied : Copied s i copy bytes) :
    ∃ copy', copyLoop src s i copy = .ok copy' ∧
      Copied s s.len copy' (bytes ++ UConfig.stripEscapes rest) := by
  induction rest using UConfig.stripEscapes.induct generalizing i copy bytes with
  | case1 =>
      have outside := List.drop_eq_nil_iff.mp isRest
      rw [View.length_read shown] at outside
      rw [copyLoop, if_neg (Nat.not_lt.mpr outside), UConfig.stripEscapes, List.append_nil]
      exact ⟨copy, rfl, copied.skip inside⟩
  | case2 rest r positive =>
      rename_i ih
      have length : s.len = i + ('\\'.toUInt8 :: rest).length := by
        rw [← isRest, List.length_drop, View.length_read shown]
        omega
      have fits := escaped_le ('\\'.toUInt8 :: rest)
      have next : i + (UConfig.escaped ('\\'.toUInt8 :: rest) - 1) + 1 =
          i + UConfig.escaped ('\\'.toUInt8 :: rest) := by
        omega
      rw [copyLoop_backslash shown isRest, if_pos positive, next, UConfig.stripEscapes, if_pos rfl,
        if_pos positive]
      refine ih ?_ (by omega) (copied.skip (Nat.le_add_right _ _))
      rw [← List.drop_drop, isRest]
  | case3 rest sign r none =>
      rename_i ih
      rw [copyLoop_backslash shown isRest, if_neg none, if_pos sign, UConfig.stripEscapes,
        if_pos rfl, if_neg none, if_pos sign]
      exact ih (drop_succ_of_cons isRest) (deref_view shown isRest).1 (copied.skip (Nat.le_succ _))
  | case4 rest noSign r none =>
      rename_i ih
      have before := (deref_view shown isRest).1
      obtain ⟨copy', stored, copied'⟩ := copied.store before '\\'.toUInt8
      rw [copyLoop_backslash shown isRest, if_neg none, if_neg noSign, stored, ok_bind,
        UConfig.stripEscapes, if_pos rfl, if_neg none, if_neg noSign]
      have restCopied := ih (drop_succ_of_cons isRest) before copied'
      rwa [List.append_assoc, List.singleton_append] at restCopied
  | case5 b rest other ih =>
      obtain ⟨before, read⟩ := deref_view shown isRest
      obtain ⟨copy', stored, copied'⟩ := copied.store before b
      rw [copyLoop, if_pos before, read, ok_bind, if_neg other, stored, ok_bind,
        UConfig.stripEscapes, if_neg other]
      have restCopied := ih (drop_succ_of_cons isRest) before copied'
      rwa [List.append_assoc, List.singleton_append] at restCopied

/-- The checked copy of a value is the plain one. -/
theorem stripEscapes_read (shown : s.read src = .ok text) :
    stripEscapes src s = .ok (UConfig.stripEscapes text) := by
  have start : Copied s 0 ⟨List.replicate s.len 0, 0⟩ [] :=
    ⟨List.length_replicate, Nat.le_refl 0, rfl⟩
  obtain ⟨copy, copies, copied⟩ := copyLoop_copied shown List.drop_zero (Nat.zero_le _) start
  have whole : View.read copy.c ⟨0, s.len⟩ = .ok copy.c := by
    rw [View.read_eq_ok, Nat.zero_add, List.drop_zero, ← copied.room, List.take_length]
    exact ⟨Nat.le_refl _, rfl⟩
  obtain ⟨head, took, bytes⟩ := takeHead_read whole (copied.behind.trans_eq copied.room.symm)
  rw [stripEscapes, copies, ok_bind, took, ok_bind, bytes, copied.written, List.nil_append]

end Copies

section Suffixes

/-- A skipped comment leaves a rest. -/
theorem skipComment_suffix (p : S8) : UConfig.skipComment p <:+ p :=
  (List.drop_suffix _ _).trans (List.dropWhile_suffix _)

/-- A scanned name leaves a rest. -/
theorem scanName_suffix {beg p finish : S8} (c : UInt8) (isRest : p <:+ beg)
    (ends : finish <:+ beg) :
    (UConfig.scanName p finish c).p <:+ beg ∧ (UConfig.scanName p finish c).finish <:+ beg := by
  induction p generalizing finish c with
  | nil => exact ⟨isRest, ends⟩
  | cons d p ih =>
      have isRest' := tail_suffix isRest
      rw [UConfig.scanName]
      split
      case isTrue => exact ⟨isRest', ends⟩
      case isFalse =>
        refine ih d isRest' ?_
        split
        case isTrue => exact ends
        case isFalse => exact isRest'

/-- Skipped blanks leave a rest. -/
theorem skipLeading_suffix (p : S8) : UConfig.skipLeading p <:+ p := by
  fun_induction UConfig.skipLeading p with
  | case1 => exact List.suffix_rfl
  | case2 rest r positive ih => exact ih.trans (List.drop_suffix _ _)
  | case3 => exact List.suffix_rfl
  | case4 => exact List.suffix_rfl
  | case5 c rest other goes ih => exact ih.trans (List.suffix_cons c rest)

/-- A scanned value leaves a rest. -/
theorem scanValue_suffix {beg p finish : S8} (cleanup : Bool) (isRest : p <:+ beg)
    (ends : finish <:+ beg) :
    (UConfig.scanValue p finish cleanup).p <:+ beg ∧
      (UConfig.scanValue p finish cleanup).finish <:+ beg := by
  fun_induction UConfig.scanValue p finish cleanup with
  | case1 => exact ⟨isRest, ends⟩
  | case2 => exact ⟨isRest, ends⟩
  | case3 => exact ⟨(skipComment_suffix _).trans isRest, ends⟩
  | case4 rest finish cleanup sign r notNewline notComment ih =>
      have isRest' := tail_suffix isRest
      exact ih ((List.drop_suffix _ _).trans isRest') ((List.drop_suffix _ _).trans isRest')
  | case5 rest finish cleanup noSign notNewline notComment r ih =>
      exact ih ((List.drop_suffix _ _).trans isRest) ends
  | case6 c rest finish cleanup notNewline notComment other ih =>
      refine ih (tail_suffix isRest) ?_
      split
      case isTrue => exact ends
      case isFalse => exact tail_suffix isRest

end Suffixes

section Lines

variable {src rest : S8}

/-- The scan of a line with a pointer to where the rest of the file begins. -/
def lineState (src : S8) : LineScan → LineState ⊕ ParseResult
  | .next p pkg => .inl ⟨pkg, place src p⟩
  | .done result => .inr result

/-- The checked view of a value reads its text. -/
theorem value_place (isRest : rest <:+ src) :
    (ValueScan.of src (UConfig.scanValue rest rest false)).value src (place src rest) =
      .ok ((UConfig.scanValue rest rest false).value rest) := by
  have ends := (scanValue_suffix false (List.suffix_refl rest) (List.suffix_refl rest)).2
  obtain ⟨field, spanned, shown⟩ := s8Span_place isRest ends
  rw [ValueScan.value, ValueScan.of, spanned, ok_bind, UConfig.ValueScan.value]
  cases (UConfig.scanValue rest rest false).cleanup with
  | true => exact stripEscapes_read shown
  | false => exact shown

/-- The checked store of a value is the plain one. -/
theorem storeValue_place (isRest : rest <:+ src) (pkg : Pkg) (target : Target) :
    storeValue src pkg target (place src rest) (.of src (UConfig.scanValue rest rest false)) =
      .ok (target.store pkg ((UConfig.scanValue rest rest false).value rest)) := by
  have value := value_place isRest
  cases target with
  | unknown => rfl
  | skip => exact congrArg (· >>= _) value
  | duplicate result => exact congrArg (· >>= _) value
  | binding name => exact congrArg (· >>= _) value
  | field known => exact congrArg (· >>= _) value

theorem scanEntry_place (isRest : rest <:+ src) (pkg : Pkg) (target : Target) :
    let beg := UConfig.skipLeading rest
    let scan := UConfig.scanValue beg beg false
    scanEntry src pkg target (place src rest) =
      .ok ⟨target.store pkg (scan.value beg), place src scan.p⟩ := by
  have isValue := (skipLeading_suffix rest).trans isRest
  rw [scanEntry, skipLeading_place isRest, ok_bind, scanValue_place isValue, ok_bind,
    storeValue_place isValue]
  rfl

/-- The scan of a line does not depend on whether it has pointers. -/
theorem scanLine_place (isRest : rest <:+ src) (pkg : Pkg) :
    scanLine src pkg (place src rest) = .ok (lineState src (UConfig.scanLine pkg rest)) := by
  have isLine : rest.dropWhile whitespace <:+ src := (List.dropWhile_suffix _).trans isRest
  rw [scanLine, skipSpace_place isRest, ok_bind, commentSign_place isLine, ok_bind,
    UConfig.scanLine]
  by_cases comment : (rest.dropWhile whitespace).head? = some '#'.toUInt8
  · rw [if_pos (decide_eq_true comment), skipComment_place isLine, ok_bind, if_pos comment]
    rfl
  · have within := List.suffix_refl (rest.dropWhile whitespace)
    obtain ⟨behind, ends⟩ := scanName_suffix 0 within within
    obtain ⟨name, spanned, shown⟩ := s8Span_place isLine ends
    have entry := scanEntry_place (behind.trans isLine) pkg
    rw [if_neg (by simp [comment]), scanName_place isLine, ok_bind, NameScan.of, spanned, ok_bind,
      shown, ok_bind, if_neg comment]
    dsimp only
    cases openTarget pkg _ _ with
    | skip => rfl
    | duplicate result => rfl
    | binding name => exact congrArg (Sum.inl <$> ·) (entry (.binding name))
    | field known => exact congrArg (Sum.inl <$> ·) (entry (.field known))
    | unknown => exact congrArg (Sum.inl <$> ·) (entry .unknown)

/-- A scanned line leaves a rest. -/
theorem scanLine_suffix {pkg pkg' : Pkg} {q : S8}
    (scan : UConfig.scanLine pkg rest = .next q pkg') : q <:+ rest := by
  have isLine : rest.dropWhile whitespace <:+ rest := List.dropWhile_suffix _
  rw [UConfig.scanLine] at scan
  split at scan
  case isTrue =>
    cases scan
    exact (skipComment_suffix _).trans isLine
  case isFalse =>
    have within := List.suffix_refl (rest.dropWhile whitespace)
    have behind := (scanName_suffix 0 within within).1.trans isLine
    dsimp only at scan
    split at scan
    · cases scan
      exact behind
    · cases scan
    · cases scan
      have isValue := (skipLeading_suffix _).trans behind
      exact (scanValue_suffix false (List.suffix_refl _) (List.suffix_refl _)).1.trans isValue

end Lines

section Runs

variable {src rest : S8}

/-- A turn of the checked loop is a line of the plain scanner. -/
theorem parseBody_place (isRest : rest <:+ src) (nonempty : rest ≠ []) (pkg : Pkg) :
    parseBody src ⟨pkg, place src rest⟩ =
      match UConfig.scanLine pkg rest with
      | .next q pkg' => .inl ⟨pkg', place src q⟩
      | .done result => .inr (.ok result) := by
  obtain ⟨c, more, rfl⟩ := List.exists_cons_of_ne_nil nonempty
  rw [parseBody, if_pos (place_lt isRest), scanLine_place isRest]
  cases UConfig.scanLine pkg (c :: more) <;> rfl

/-- The checked loop leaves at the end of the file. -/
theorem parseBody_end (src : S8) (pkg : Pkg) :
    parseBody src ⟨pkg, place src []⟩ = .inr (.ok (.ok pkg)) := by
  rw [place_nil, parseBody, if_neg (Nat.lt_irrefl _)]

/-- The outer loop ends with what the scanner without pointers returns. -/
theorem parseBody_ends (isRest : rest <:+ src) (pkg : Pkg) :
    Loop.Ends (parseBody src) ⟨pkg, place src rest⟩ (.ok (scanLines pkg rest)) := by
  fun_induction scanLines pkg rest with
  | case1 pkg => exact ⟨_, .refl, parseBody_end src pkg⟩
  | case2 pkg rest nonempty q pkg' scan ih =>
      have turn := parseBody_place isRest nonempty pkg
      rw [scan] at turn
      exact (ih ((scanLine_suffix scan).trans isRest)).after (.single turn)
  | case3 pkg rest nonempty result scan =>
      have leaves := parseBody_place isRest nonempty pkg
      rw [scan] at leaves
      exact ⟨_, .refl, leaves⟩

/-- Every state of a run points to a rest of the file. -/
def Inside (src : S8) (state : LineState) : Prop :=
  ∃ rest pkg, rest <:+ src ∧ state = ⟨pkg, place src rest⟩

/-- Every turn consumes at least one byte. -/
theorem parseBody_further {state next : LineState} (inside : Inside src state)
    (turn : parseBody src state = .inl next) : state.p < next.p ∧ Inside src next := by
  obtain ⟨rest, pkg, isRest, rfl⟩ := inside
  by_cases empty : rest = []
  · subst empty
    rw [parseBody_end] at turn
    cases turn
  · rw [parseBody_place isRest empty] at turn
    split at turn
    case h_1 q pkg' scan =>
      cases turn
      have isRest' := (scanLine_suffix scan).trans isRest
      have shorter := scanLine_length empty scan
      have length := isRest.length_le
      have further : place src rest < place src q := by
        rw [place, place]
        omega
      exact ⟨further, q, pkg', isRest', rfl⟩
    case h_2 => cases turn

/-- The scan of any file ends without a failed check, and each of its turns consumes at least one
byte and stays inside of the file. -/
theorem parsePackage_checked (src : S8) :
    Loop.Ends (parseBody src) (parseStart src) (.ok (parsePackage src)) ∧
      ∀ state next, Loop.Runs (parseBody src) (parseStart src) state →
        parseBody src state = .inl next → state.p < next.p ∧ next.p ≤ src.length := by
  have whole := List.suffix_refl src
  have start : Inside src (parseStart src) :=
    ⟨src, _, whole, by rw [place_self]; rfl⟩
  constructor
  · have ends := parseBody_ends whole { Pkg.zero with contents := some src }
    rwa [place_self] at ends
  · intro state next runs turn
    have preserved : ∀ state next, Inside src state → parseBody src state = .inl next →
        Inside src next := fun _ _ inside turn => (parseBody_further inside turn).2
    have inside := Loop.Runs.invariant preserved start runs
    obtain ⟨further, rest, pkg, _, rfl⟩ := parseBody_further inside turn
    exact ⟨further, place_le src rest⟩

end Runs

end Checked

end UConfig
