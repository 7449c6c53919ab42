/-
This file proves what the scanner does with one printed line.
-/

import UConfig.Proof.ParsePackage.Entries

namespace UConfig

/-- The span before a rest is the text before it. -/
theorem span_append (text rest : S8) : span (text ++ rest) rest = text := by
  rw [span, List.length_append, Nat.add_sub_cancel, List.take_left]

/-- A name without separators is scanned to its last byte. -/
theorem scanName_name (init p finish : S8) (last c : UInt8)
    (plain : ∀ d ∈ init ++ [last], ¬(d = '\n'.toUInt8 ∨ d = '='.toUInt8 ∨ d = ':'.toUInt8))
    (solid : whitespace last = false) :
    scanName (init ++ last :: p) finish c = scanName p p last := by
  induction init generalizing finish c with
  | nil =>
      rw [List.nil_append, scanName, if_neg (plain last (by simp)), solid]
      rfl
  | cons d init ih =>
      rw [List.cons_append, scanName, if_neg (plain d (by simp))]
      exact ih _ d fun other member => plain other (List.mem_cons_of_mem _ member)

/-- The scan of a name stops at the separator behind it. -/
theorem scanName_entryName (name : EntryName) (p : S8) (c sep : UInt8)
    (isSep : sep = '='.toUInt8 ∨ sep = ':'.toUInt8) :
    scanName (name.text ++ sep :: p) (name.text ++ sep :: p) c = ⟨p, sep :: p, sep⟩ := by
  obtain ⟨init, last, shape⟩ := (List.eq_nil_or_concat' _).resolve_left name.nonempty
  have plain : ∀ d ∈ init ++ [last],
      ¬(d = '\n'.toUInt8 ∨ d = '='.toUInt8 ∨ d = ':'.toUInt8) := by
    intro d member
    rw [← shape] at member
    rintro (rfl | rfl | rfl)
    · exact name.noNewline member
    · exact name.noEquals member
    · exact name.noColon member
  have solid : whitespace last = false :=
    name.trimmed.stop last (by rw [shape, List.getLast?_concat])
  have stops : sep = '\n'.toUInt8 ∨ sep = '='.toUInt8 ∨ sep = ':'.toUInt8 := .inr isSep
  rw [shape, List.append_assoc, List.singleton_append, scanName_name _ _ _ _ _ plain solid,
    scanName, if_pos stops]

/-- A backslash inside of a value does not escape anything. -/
theorem escaped_inside (init p : S8) (last : UInt8)
    (oneLine : '\n'.toUInt8 ∉ init ++ [last]) (solid : whitespace last = false) :
    escaped ('\\'.toUInt8 :: (init ++ last :: p)) = 0 := by
  have notLast : last ≠ '\r'.toUInt8 := by
    rintro rfl
    cases solid
  cases init with
  | nil =>
      have first : last ≠ '\n'.toUInt8 := by simpa [eq_comm] using oneLine
      simp [escaped, startsWith, S, List.isPrefixOf, first.symm, notLast.symm]
  | cons c init =>
      cases init with
      | nil =>
          simp only [List.cons_append, List.nil_append, List.mem_cons, List.not_mem_nil, or_false,
            not_or] at oneLine
          simp [escaped, startsWith, S, List.isPrefixOf, oneLine]
      | cons d init =>
          simp only [List.cons_append, List.mem_cons, not_or] at oneLine
          simp [escaped, startsWith, S, List.isPrefixOf, oneLine]

/-- A value is scanned to its last byte. -/
theorem scanValue_value (init p finish : S8) (last : UInt8) (cleanup : Bool)
    (oneLine : '\n'.toUInt8 ∉ init ++ [last]) (noComment : '#'.toUInt8 ∉ init ++ [last])
    (solid : whitespace last = false) (noBackslash : last ≠ '\\'.toUInt8) :
    scanValue (init ++ last :: p) finish cleanup = scanValue p p cleanup := by
  induction init generalizing finish with
  | nil =>
      simp only [List.nil_append, List.mem_cons, List.not_mem_nil, or_false] at oneLine noComment
      rw [List.nil_append, scanValue, if_neg (Ne.symm oneLine), if_neg (Ne.symm noComment),
        if_neg noBackslash, solid]
      rfl
  | cons c init ih =>
      simp only [List.cons_append, List.mem_cons, not_or] at oneLine noComment
      rw [List.cons_append, scanValue, if_neg (Ne.symm oneLine.1), if_neg (Ne.symm noComment.1)]
      have continues := fun finish => ih finish oneLine.2 noComment.2
      by_cases isBackslash : c = '\\'.toUInt8
      · subst isBackslash
        have plainHead : (init ++ last :: p).head? ≠ some '#'.toUInt8 := by
          cases init with
          | nil => simpa [eq_comm] using noComment.2
          | cons d init =>
              simp only [List.cons_append, List.mem_cons, not_or] at noComment
              simpa using Ne.symm noComment.2.1
        rw [if_pos rfl, if_neg plainHead, escaped_inside init p last oneLine.2 solid]
        simpa using continues finish
      · rw [if_neg isBackslash]
        exact continues _

/-- The leading whitespace before a value is skipped, unless it is a newline. -/
theorem skipLeading_space (c : UInt8) (p : S8) (isSpace : whitespace c = true)
    (notNewline : c ≠ '\n'.toUInt8) : skipLeading (c :: p) = skipLeading p := by
  have notBackslash : c ≠ '\\'.toUInt8 := by
    rintro rfl
    cases isSpace
  rw [skipLeading, if_neg notBackslash, if_neg (by simp [isSpace, notNewline])]

/-- The end of a line is not skipped. -/
theorem skipLeading_newline (p : S8) :
    skipLeading ('\n'.toUInt8 :: p) = '\n'.toUInt8 :: p := by
  rw [skipLeading, if_neg (by decide), if_pos (.inl rfl)]

/-- The value ends before the whitespace that ends its line. -/
theorem scanValue_lineEnd (ending : LineEnd) (p : S8) (cleanup : Bool) :
    scanValue (ending.bytes ++ p) (ending.bytes ++ p) cleanup =
      ⟨'\n'.toUInt8 :: p, ending.bytes ++ p, cleanup⟩ := by
  cases ending with
  | lf =>
      change scanValue ('\n'.toUInt8 :: p) _ _ = _
      rw [scanValue, if_pos rfl]
  | crlf =>
      change scanValue ('\r'.toUInt8 :: '\n'.toUInt8 :: p) _ _ = _
      rw [scanValue, if_neg (by decide), if_neg (by decide), if_neg (by decide), if_pos (by decide),
        scanValue, if_pos rfl]

/-- The scan of a printed value finds its text and stops at the newline. -/
theorem scanValue_entryValue (value : EntryValue) (ending : LineEnd) (p : S8) :
    (scanValue (skipLeading (value.text ++ ending.bytes ++ p))
        (skipLeading (value.text ++ ending.bytes ++ p)) false).value
          (skipLeading (value.text ++ ending.bytes ++ p)) = value.text ∧
      (scanValue (skipLeading (value.text ++ ending.bytes ++ p))
        (skipLeading (value.text ++ ending.bytes ++ p)) false).p = '\n'.toUInt8 :: p := by
  cases List.eq_nil_or_concat' (l := value.text) with
  | inl empty =>
      have skipped : skipLeading (ending.bytes ++ p) = '\n'.toUInt8 :: p := by
        cases ending with
        | lf => exact skipLeading_newline p
        | crlf =>
            exact (skipLeading_space '\r'.toUInt8 ('\n'.toUInt8 :: p) (by decide)
              (by decide)).trans (skipLeading_newline p)
      have scanned := scanValue_lineEnd .lf p false
      change scanValue ('\n'.toUInt8 :: p) ('\n'.toUInt8 :: p) false = _ at scanned
      rw [empty, List.nil_append, skipped, scanned]
      exact ⟨span_append [] ('\n'.toUInt8 :: p), rfl⟩
  | inr nonempty =>
      obtain ⟨init, last, shape⟩ := nonempty
      have oneLine := value.noNewline
      have noComment := value.noComment
      have solid : whitespace last = false :=
        value.trimmed.stop last (by rw [shape, List.getLast?_concat])
      have noBackslash : last ≠ '\\'.toUInt8 := by
        rintro rfl
        exact value.noBackslash (by rw [shape, List.getLast?_concat])
      have starts := value.trimmed.start
      rw [shape] at oneLine noComment starts
      rw [List.append_assoc, shape, List.append_assoc, List.singleton_append]
      have skipped : skipLeading (init ++ last :: (ending.bytes ++ p)) =
          init ++ last :: (ending.bytes ++ p) := by
        cases init with
        | nil =>
            rw [List.nil_append, skipLeading, if_neg noBackslash, if_pos (.inr (by rw [solid]; rfl))]
        | cons c init =>
            simp only [List.cons_append, List.mem_cons, not_or] at oneLine
            rw [List.cons_append, skipLeading]
            by_cases isBackslash : c = '\\'.toUInt8
            · subst isBackslash
              rw [if_pos rfl, escaped_inside init _ last oneLine.2 solid]
              rfl
            · rw [if_neg isBackslash, if_pos (.inr (by rw [starts c rfl]; rfl))]
      rw [skipped, scanValue_value init _ _ last false oneLine noComment solid noBackslash,
        scanValue_lineEnd]
      refine ⟨?_, rfl⟩
      have text := span_append (init ++ [last]) (ending.bytes ++ p)
      rwa [List.append_assoc, List.singleton_append] at text

/-- What the scanner decides about a name and its separator. -/
def Entry.target (entry : Entry) (pkg : Pkg) : Target :=
  openTarget pkg entry.separator entry.name.text

/-- A printed entry is one turn of the scanner, which stops at the newline. -/
theorem scanLine_entry (entry : Entry) (ending : LineEnd) (pkg : Pkg) (p : S8) :
    scanLine pkg (entry.line ++ ending.bytes ++ p) =
      match entry.target pkg with
      | .skip => .next (entry.space ++ entry.value.text ++ ending.bytes ++ p) pkg
      | .duplicate result => .done result
      | target => .next ('\n'.toUInt8 :: p) (target.store pkg entry.value.text) := by
  have text : entry.line ++ ending.bytes ++ p = entry.name.text ++ entry.separator ::
      (entry.space ++ entry.value.text ++ ending.bytes ++ p) := by
    simp [Entry.line]
  have isSep : entry.separator = '='.toUInt8 ∨ entry.separator = ':'.toUInt8 := by
    cases entry <;> first | exact .inl rfl | exact .inr rfl
  have solid : ∀ rest : S8, (entry.name.text ++ rest).dropWhile whitespace =
      entry.name.text ++ rest := by
    intro rest
    obtain ⟨c, others, shape⟩ := List.exists_cons_of_ne_nil entry.name.nonempty
    have start := entry.name.trimmed.start c (by rw [shape]; rfl)
    rw [shape, List.cons_append, List.dropWhile_cons_of_neg (by simp [start])]
  have noComment : ∀ rest : S8, (entry.name.text ++ rest).head? ≠ some '#'.toUInt8 := by
    intro rest
    rw [List.head?_append_of_ne_nil _ entry.name.nonempty]
    exact entry.name.noComment
  have skipped : skipLeading (entry.space ++ entry.value.text ++ ending.bytes ++ p) =
      skipLeading (entry.value.text ++ ending.bytes ++ p) := by
    cases entry with
    | binding name value => rfl
    | field known value => exact skipLeading_space _ _ (by decide) (by decide)
    | unknown key absent value => exact skipLeading_space _ _ (by decide) (by decide)
  obtain ⟨value, stop⟩ := scanValue_entryValue entry.value ending p
  rw [text, scanLine]
  simp only [solid, if_neg (noComment _), scanName_entryName entry.name _ 0 _ isSep, span_append,
    skipped, value, stop]
  rfl

end UConfig
