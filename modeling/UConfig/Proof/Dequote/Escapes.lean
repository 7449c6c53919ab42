/-
This file proves what the bytes that a scan prints mean when their backslashes are removed.
-/

import UConfig.Program.Dequote

namespace UConfig

/-- A backslash stands for the byte behind it. -/
def unescape : S8 → S8
  | c :: d :: rest => if c = '\\'.toUInt8 then d :: unescape rest else c :: unescape (d :: rest)
  | rest => rest

/-- A backslash stands for the byte behind it. -/
theorem unescape_backslash (d : UInt8) (rest : S8) :
    unescape ('\\'.toUInt8 :: d :: rest) = d :: unescape rest := by
  rw [unescape, if_pos rfl]

/-- Any other byte stands for itself. -/
theorem unescape_plain {c : UInt8} (plain : c ≠ '\\'.toUInt8) (rest : S8) :
    unescape (c :: rest) = c :: unescape rest := by
  cases rest with
  | nil => rfl
  | cons d rest => rw [unescape, if_neg plain]

/-- The printed bytes mean this value wherever they stand. -/
def Escapes (printed value : S8) : Prop :=
  ∀ more, unescape (printed ++ more) = value ++ unescape more

/-- Nothing escapes nothing. -/
theorem Escapes.nil : Escapes [] [] := fun _ => rfl

/-- What escapes two values escapes them one behind the other. -/
theorem Escapes.append {printed value printed' value' : S8} (first : Escapes printed value)
    (second : Escapes printed' value') : Escapes (printed ++ printed') (value ++ value') := by
  intro more
  rw [List.append_assoc, first, second, List.append_assoc]

/-- A backslash escapes any byte. -/
theorem Escapes.backslash (c : UInt8) : Escapes ['\\'.toUInt8, c] [c] :=
  fun more => unescape_backslash c more

/-- A byte that is no backslash escapes itself. -/
theorem Escapes.plain {c : UInt8} (plain : c ≠ '\\'.toUInt8) : Escapes [c] [c] :=
  fun more => unescape_plain plain more

/-- What escapes a value is read back as it. -/
theorem Escapes.unescape_eq {printed value : S8} (escapes : Escapes printed value) :
    unescape printed = value := by
  have whole := escapes []
  rwa [List.append_nil, show unescape [] = [] from rfl, List.append_nil] at whole

/-- Whitespace inside of quotes is a space, and encoded bytes are decoded. -/
def quotedValue (b : UInt8) : UInt8 := pathDecode (asSpace b)

/-- The backslash is printed behind a backslash of its own in every state. -/
theorem shellMeta_backslash : shellMeta '\\'.toUInt8 = true := by
  decide +kernel

/-- All bytes are checked at once for their values and their encodings. -/
theorem quotedValue_table : ∀ b,
    (shellMeta (asSpace b) = false → quotedValue b ≠ '\\'.toUInt8) ∧
    (quotedValue b = '\\'.toUInt8 ↔ b = '\\'.toUInt8) ∧
    (shellMeta b = false → pathDecode b = b) ∧
    (asSpace b = '\''.toUInt8 ∨ asSpace b = '\"'.toUInt8 →
      b = '\''.toUInt8 ∨ b = '\"'.toUInt8) :=
  forall_byte (by decide +kernel)

/-- A byte without a special meaning does not turn into a backslash. -/
theorem quotedValue_plain : ∀ b, shellMeta (asSpace b) = false →
    quotedValue b ≠ '\\'.toUInt8 :=
  fun b => (quotedValue_table b).1

/-- Only a backslash has the value of a backslash. -/
theorem quotedValue_backslash : ∀ b, quotedValue b = '\\'.toUInt8 ↔ b = '\\'.toUInt8 :=
  fun b => (quotedValue_table b).2.1

/-- A byte without a special meaning is no code. -/
theorem pathDecode_plain : ∀ c, shellMeta c = false → pathDecode c = c :=
  fun c => (quotedValue_table c).2.2.1

/-- What a byte that is not a quote in its state prints for its value. -/
def valueBytes (b : UInt8) : S8 :=
  if asSpace b = ' '.toUInt8 ∨ shellMeta (asSpace b) = true then
    ['\\'.toUInt8, quotedValue b]
  else [quotedValue b]

/-- What is printed for a byte escapes its value. -/
theorem escapes_valueBytes (b : UInt8) : Escapes (valueBytes b) [quotedValue b] := by
  unfold valueBytes
  split
  case isTrue => exact Escapes.backslash _
  case isFalse other =>
    rw [not_or, Bool.not_eq_true] at other
    exact Escapes.plain (quotedValue_plain b other.2)

/-- Only quotes are seen as quotes. -/
theorem asSpace_quote : ∀ b, asSpace b = '\''.toUInt8 ∨ asSpace b = '\"'.toUInt8 →
    b = '\''.toUInt8 ∨ b = '\"'.toUInt8 :=
  fun b => (quotedValue_table b).2.2.2

/-- What one byte does: it opens or closes a quote, or it prints its value.
No byte ever sets the flag for a byte after a backslash. -/
theorem dequoteByte_some {q q' : Quoting} (unescaped : q.escaped = false) {b : UInt8} {bytes : S8}
    (consumed : dequoteByte q b = some (bytes, q')) :
    q'.escaped = false ∧ bytes.length ≤ 2 ∧
      ((bytes = [] ∧ (b = '\''.toUInt8 ∨ b = '\"'.toUInt8) ∧ q'.quote ≠ q.quote) ∨
        bytes = valueBytes b) := by
  simp only [dequoteByte, unescaped, Bool.false_eq_true, if_false] at consumed
  split at consumed
  · split at consumed
    · cases consumed
      refine ⟨rfl, Nat.zero_le 2, .inl ⟨rfl, asSpace_quote b (.inl ‹_›), ?_⟩⟩
      exact fun same => absurd (same.trans ‹q.quote = _›) (by decide)
    · split at consumed
      case isTrue special =>
        cases consumed
        exact ⟨unescaped, Nat.le_refl 2, .inr (if_pos special).symm⟩
      case isFalse special =>
        cases consumed
        exact ⟨unescaped, Nat.le_succ 1, .inr (if_neg special).symm⟩
  · split at consumed
    · split at consumed
      · cases consumed
        refine ⟨rfl, Nat.zero_le 2, .inl ⟨rfl, asSpace_quote b (.inr ‹_›), ?_⟩⟩
        exact fun same => absurd (same.trans ‹q.quote = _›) (by decide)
      · split at consumed
        case isTrue special =>
          cases consumed
          exact ⟨unescaped, Nat.le_refl 2, .inr (if_pos special).symm⟩
        case isFalse special =>
          -- The flag is only set by a backslash, which has been printed by the branch before.
          have other : (asSpace b) ≠ '\\'.toUInt8 := by
            intro same
            rw [same] at special
            exact special (.inr shellMeta_backslash)
          cases consumed
          exact ⟨beq_eq_false_iff_ne.mpr other, Nat.le_succ 1, .inr (if_neg special).symm⟩
    · split at consumed
      · cases consumed
        rename_i notSingle notDouble opens
        refine ⟨rfl, Nat.zero_le 2, .inl ⟨rfl, asSpace_quote b opens, fun same => ?_⟩⟩
        dsimp only at same
        rw [same] at opens
        exact opens.elim notSingle notDouble
      · split at consumed
        case isTrue special =>
          cases consumed
          exact ⟨unescaped, Nat.le_refl 2, .inr (if_pos (.inr special)).symm⟩
        case isFalse special =>
          split at consumed
          · cases consumed
          case isFalse notSpace =>
            have same := pathDecode_plain _ (Bool.not_eq_true _ ▸ special)
            have single : valueBytes b = [asSpace b] := by
              rw [valueBytes, if_neg (by simp [notSpace, special]), quotedValue, same]
            cases consumed
            exact ⟨unescaped, Nat.le_succ 1, .inr single.symm⟩

/-- The scan never prints more than two bytes for one. -/
theorem printed_length (q : Quoting) (unescaped : q.escaped = false) (s : S8) :
    (dequoteScan q s).printed.length ≤ 2 * s.length := by
  induction s generalizing q with
  | nil => exact Nat.zero_le _
  | cons b s ih =>
      rw [dequoteScan]
      cases consumed : dequoteByte q b with
      | none => exact Nat.zero_le _
      | some next =>
          obtain ⟨bytes, q'⟩ := next
          obtain ⟨unescaped', short, _⟩ := dequoteByte_some unescaped consumed
          have rest := ih q' unescaped'
          simp only [List.length_append, List.length_cons]
          omega

/-- The token of a field fits into an arena with twice the room of the field. -/
theorem token_fits (s : S8) : (dequoteToken s).printed.length ≤ 2 * s.length := by
  have skipped := (List.dropWhile_sublist whitespace (l := s)).length_le
  have printed := printed_length .start rfl (s.dropWhile whitespace)
  rw [dequoteToken]
  omega

end UConfig
