/-
This file proves which arguments a shell reads as one word without operators.
-/

import UConfig.Proof.Dequote.FieldWords

namespace UConfig

/-- No byte outside of a pair of a backslash and its next byte is special, and no backslash is
left alone at the end. -/
def inert (special : S8) : S8 → Bool
  | [] => true
  | [c] => c != '\\'.toUInt8 && !special.contains c
  | c :: d :: rest =>
      if c = '\\'.toUInt8 then inert special rest
      else !special.contains c && inert special (d :: rest)

/-- These bytes separate words or have another meaning outside of quotes. -/
def shellSpecial : S8 := S " \t\n;&|<>\"'`*?[#"

/-- The bytes that are left to the shell on purpose. -/
def substitution : S8 := S "$()"

/-- A byte behind a backslash is inert. -/
theorem inert_backslash (special rest : S8) (d : UInt8) :
    inert special ('\\'.toUInt8 :: d :: rest) = inert special rest := by
  rw [inert, if_pos rfl]

/-- Any other byte is inert when it is not special. -/
theorem inert_plain {special rest : S8} {c : UInt8} (plain : c ≠ '\\'.toUInt8) :
    inert special (c :: rest) = (!special.contains c && inert special rest) := by
  cases rest with
  | nil => simp [inert, plain]
  | cons d rest => rw [inert, if_neg plain]

/-- These bytes never stand alone in an argument. -/
def guarded (b : UInt8) : Bool := shellMeta b || whitespace b

/-- A guarded byte prints nothing or a pair with a backslash, and any other byte prints itself. -/
def printsUnit (b : UInt8) : S8 → Bool
  | [] => guarded b
  | [c] => c == b && !guarded b
  | [c, _] => c == '\\'.toUInt8 && guarded b
  | _ => false

/-- The states that the scan gets into. -/
def Quoting.plain (q : Quoting) : Bool := !q.escaped && (q.quote == 0 || isQuote q.quote)

/-- A state without a pending backslash is one of three. -/
theorem Quoting.plain_cases {q : Quoting} (plain : q.plain = true) :
    q = .start ∨ q = ⟨'\''.toUInt8, false⟩ ∨ q = ⟨'\"'.toUInt8, false⟩ := by
  obtain ⟨quote, escaped⟩ := q
  simp only [Quoting.plain, isQuote, Bool.and_eq_true, Bool.not_eq_true', Bool.or_eq_true,
    beq_iff_eq] at plain
  obtain ⟨rfl, rfl | rfl | rfl⟩ := plain
  · exact .inl rfl
  · exact .inr (.inl rfl)
  · exact .inr (.inr rfl)

/-- A byte prints itself or its escape and leaves no backslash behind. -/
theorem dequoteByte_unit {q : Quoting} (plain : q.plain = true) :
    ∀ b, (dequoteByte q b).all fun next => printsUnit b next.1 && next.2.plain := by
  rcases Quoting.plain_cases plain with rfl | rfl | rfl
  · exact forall_byte (by decide +kernel)
  · exact forall_byte (by decide +kernel)
  · exact forall_byte (by decide +kernel)

/-- Among the special bytes exactly the culprits are not guarded. -/
structure Exposes (special culprits : S8) : Prop where
  bare : ∀ b, guarded b = false → special.contains b = culprits.contains b
  exposed : ∀ b ∈ culprits, guarded b = false

/-- A guarded byte is no culprit. -/
theorem Exposes.contains {special culprits : S8} (exposes : Exposes special culprits) {b : UInt8}
    (isGuarded : guarded b = true) : culprits.contains b = false := by
  rw [List.contains_eq_mem, decide_eq_false_iff_not]
  intro member
  rw [exposes.exposed b member] at isGuarded
  cases isGuarded

/-- Only the semicolon is missing from the bytes that get a backslash. -/
theorem exposes_semicolon : Exposes shellSpecial (S ";") where
  bare := forall_byte (by decide +kernel)
  exposed := by decide +kernel

/-- The bytes of a substitution expose themselves. -/
theorem exposes_substitution : Exposes substitution substitution where
  bare _ _ := rfl
  exposed := by decide +kernel

/-- A unit is inert exactly when its byte is not a culprit. -/
theorem inert_unit {special culprits bytes rest : S8} (exposes : Exposes special culprits) {b : UInt8}
    (unit : printsUnit b bytes = true) :
    inert special (bytes ++ rest) = (!culprits.contains b && inert special rest) := by
  unfold printsUnit at unit
  split at unit
  · rw [exposes.contains unit]
    rfl
  · rename_i c
    simp only [Bool.and_eq_true, beq_iff_eq, Bool.not_eq_true'] at unit
    have notBackslash : c ≠ '\\'.toUInt8 := by
      rintro rfl
      rw [guarded, ← unit.1, shellMeta_backslash] at unit
      cases unit.2
    rw [List.singleton_append, inert_plain notBackslash, unit.1, exposes.bare b unit.2]
  · rename_i c d
    simp only [Bool.and_eq_true, beq_iff_eq] at unit
    rw [unit.1, exposes.contains unit.2]
    exact inert_backslash special rest d
  · cases unit

/-- The printed bytes are inert exactly when no culprit has been taken. -/
theorem inert_scan {special culprits : S8} (exposes : Exposes special culprits) {q : Quoting}
    (plain : q.plain = true) (s : S8) : ∃ taken, s = taken ++ (dequoteScan q s).tail ∧
      (inert special (dequoteScan q s).printed = true ↔ ∀ c ∈ taken, c ∉ culprits) := by
  induction s generalizing q with
  | nil => exact ⟨[], rfl, by simp [dequoteScan, inert]⟩
  | cons b s ih =>
      have unit := dequoteByte_unit plain b
      rw [dequoteScan]
      cases consumed : dequoteByte q b with
      | none => exact ⟨[], rfl, by simp [inert]⟩
      | some next =>
          rw [consumed, Option.all_some, Bool.and_eq_true] at unit
          obtain ⟨taken, shape, safe⟩ := ih unit.2
          refine ⟨b :: taken, congrArg (b :: ·) shape, ?_⟩
          dsimp only
          rw [inert_unit exposes unit.1, Bool.and_eq_true, safe, List.forall_mem_cons, Bool.not_eq_true',
            List.contains_eq_mem, decide_eq_false_iff_not]

/-- The token of the first word is inert exactly when no culprit is in the word. -/
theorem inert_word {special culprits : S8} (exposes : Exposes special culprits) {field : S8}
    {word : Word} {rest : S8} (first : FirstWord field word rest) :
    inert special (dequoteToken field).printed = true ↔ ∀ c ∈ word.text, c ∉ culprits := by
  have token := dequoteToken_result_word first
  obtain ⟨spaces, isBlank, nonempty, stops, rfl⟩ := first
  obtain ⟨part, others, rfl⟩ := List.exists_cons_of_ne_nil nonempty
  have solid : ∃ c behind, Word.text (part :: others) ++ rest = c :: behind ∧
      whitespace c = false := by
    obtain ⟨c, behind, same, solid⟩ := part.text_head (Word.text others ++ rest)
    refine ⟨c, behind, ?_, solid⟩
    rw [← same, ← List.append_assoc]
    rfl
  obtain ⟨taken, shape, safe⟩ := inert_scan exposes (q := .start) rfl (Word.text (part :: others) ++ rest)
  rw [dequoteToken, List.append_assoc, dropWhile_spaces isBlank solid] at token ⊢
  rw [token] at shape
  rw [safe, List.append_cancel_right shape]

/-- A field without words is dequoted to an empty argument. -/
theorem dequoteToken_blank {field : S8} (blank : ∀ c ∈ field, whitespace c = true) :
    (dequoteToken field).printed = [] := by
  rw [dequoteToken, List.dropWhile_eq_nil_iff.mpr blank]
  rfl

/-- A successful result is the token of the field. -/
theorem dequote_token {field : S8} {perm perm' : Arena} {r : Dequoted}
    (read : dequote field perm = .ok (r, perm')) (ok : r.ok = true) :
    (dequoteToken field).quoting.quote = 0 ∧ r.arg = (dequoteToken field).printed := by
  have same := dequotesAs_token field perm
  rw [read] at same
  simp only [Except.ok.injEq, Prod.mk.injEq, reduceCtorEq, false_and, or_false] at same
  rw [same.1, DequoteScan.result] at ok ⊢
  by_cases isOpen : (dequoteToken field).quoting.quote ≠ 0
  · rw [if_pos isOpen] at ok
    cases ok
  · rw [if_neg isOpen]
    exact ⟨not_not.mp isOpen, rfl⟩

/-- A dequoted argument is inert exactly when no culprit is in the first word of the field. -/
theorem inert_dequote {special culprits : S8} (exposes : Exposes special culprits) {field : S8}
    {perm perm' : Arena} {r : Dequoted} (read : dequote field perm = .ok (r, perm'))
    (ok : r.ok = true) :
    inert special r.arg = true ↔ ∀ word rest, FirstWord field word rest →
      ∀ c ∈ word.text, c ∉ culprits := by
  obtain ⟨isClosed, isPrinted⟩ := dequote_token read ok
  rw [isPrinted]
  by_cases nonblank : ∃ c ∈ field, whitespace c = false
  · rcases exists_firstWord nonblank with closed | opened
    · obtain ⟨word, rest, first⟩ := closed
      exact ⟨fun safe word rest first => (inert_word exposes first).mp safe,
        fun absent => (inert_word exposes first).mpr (absent word rest first)⟩
    · obtain ⟨spaces, word, quote, text, isBlank, quotes, inside, rfl⟩ := opened
      rw [dequoteToken_unclosed isBlank word quotes inside] at isClosed
      exact absurd isClosed (isQuote_ne_zero quotes)
  · have blank : ∀ c ∈ field, whitespace c = true := by
      intro c member
      by_contra solid
      exact nonblank ⟨c, member, by simpa using solid⟩
    rw [dequoteToken_blank blank]
    exact iff_of_true rfl fun word rest first => absurd (firstWord_nonblank first) nonblank

/-- A word has only bytes of its field. -/
theorem FirstWord.text_subset {field : S8} {word : Word} {rest : S8}
    (first : FirstWord field word rest) : ∀ c ∈ word.text, c ∈ field := by
  obtain ⟨spaces, _, _, _, rfl⟩ := first
  intro c member
  simp [member]

/-- A dequoted argument is one word for a shell exactly when the first word has no semicolon. -/
theorem dequote_shellWord {field : S8} (plain : ∀ c ∈ field, c ∉ substitution)
    {perm perm' : Arena} {r : Dequoted} (read : dequote field perm = .ok (r, perm'))
    (ok : r.ok = true) :
    inert substitution r.arg = true ∧
      (inert shellSpecial r.arg = true ↔
        ∀ word rest, FirstWord field word rest → ';'.toUInt8 ∉ word.text) := by
  constructor
  · apply (inert_dequote exposes_substitution read ok).mpr
    intro word rest first c member
    exact plain c (first.text_subset c member)
  · rw [inert_dequote exposes_semicolon read ok]
    have culprits : S ";" = [';'.toUInt8] := rfl
    have absent_iff : ∀ text : S8, (∀ c ∈ text, c ∉ S ";") ↔ ';'.toUInt8 ∉ text := by
      intro text
      rw [culprits]
      constructor
      · intro absent member
        exact absent _ member List.mem_cons_self
      · intro absent c member isCulprit
        rw [List.mem_singleton.mp isCulprit] at member
        exact absent member
    simp only [absent_iff]

/-- A word in quotes, whose value has a blank. -/
theorem dequote_shellWord_quoted : inert substitution (S "-DX=a\\ b") = true ∧
    (inert shellSpecial (S "-DX=a\\ b") = true ↔
      ∀ word rest, FirstWord (S "-DX='a b'") word rest → ';'.toUInt8 ∉ word.text) := by
  have read : dequote (S "-DX='a b'") ⟨0, 100⟩ = .ok (⟨S "-DX=a\\ b", [], true⟩, ⟨8, 100⟩) := rfl
  exact dequote_shellWord (by decide +kernel) read rfl

/-- A semicolon in quotes is printed without a backslash. -/
theorem dequote_leaves_semicolon : ¬ ∀ (field : S8) (perm perm' : Arena) (r : Dequoted),
    (∀ c ∈ field, c ∉ substitution) → dequote field perm = .ok (r, perm') → r.ok = true →
    inert shellSpecial r.arg = true := by
  intro always
  have read : dequote (S "-DX='a;b'") ⟨0, 100⟩ = .ok (⟨S "-DX=a;b", [], true⟩, ⟨7, 100⟩) := rfl
  have safe := always _ _ _ _ (by decide +kernel) read rfl
  revert safe
  decide +kernel

end UConfig
