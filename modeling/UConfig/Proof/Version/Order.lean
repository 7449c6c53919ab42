/-
This file proves that the comparison of versions is a linear order of all byte strings.
-/

import Mathlib.Data.Prod.Lex
import UConfig.Program.Version
import UConfig.Library.ThreeWay

namespace UConfig

open ThreeWay

/-- A token compares by its first byte, then by its length and then by its bytes.
The length and the bytes of a token that is not a run of digits do not matter. -/
abbrev Token := ℕ ×ₗ ℕ ×ₗ List ℕ

/-- All runs of digits stand at the place of the first digit. -/
def runToken (run : S8) : Token :=
  toLex ('0'.toUInt8.toNat, toLex (run.length, run.map UInt8.toNat))

def byteToken (c : UInt8) : Token := toLex (c.toNat, toLex (0, []))

/-- The runs of digits and the other bytes of a version. -/
def tokens : S8 → List Token
  | [] => []
  | c :: s =>
      if _run : digit c = true then
        runToken (digits (c :: s)).head :: tokens (digits (c :: s)).tail
      else byteToken c :: tokens s
termination_by s => s.length
decreasing_by
  · rw [digits, List.dropWhile_cons_of_pos _run, List.length_cons]
    exact Nat.lt_succ_of_le (List.dropWhile_sublist _).length_le
  · simp

/-- A digit begins a run. -/
theorem tokens_digit {c : UInt8} (s : S8) (isDigit : digit c = true) :
    tokens (c :: s) = runToken (digits (c :: s)).head :: tokens (digits (c :: s)).tail := by
  rw [tokens, dif_pos isDigit]

/-- Any other byte is a token of its own. -/
theorem tokens_other {c : UInt8} (s : S8) (other : digit c = false) :
    tokens (c :: s) = byteToken c :: tokens s := by
  rw [tokens, dif_neg (by simp [other])]

/-- The digits are the bytes from 48 to 57. -/
theorem digit_iff (c : UInt8) : digit c = true ↔ 48 ≤ c.toNat ∧ c.toNat ≤ 57 := by
  rw [digit, Bool.and_eq_true, decide_eq_true_eq, decide_eq_true_eq, UInt8.le_iff_toNat_le,
    UInt8.le_iff_toNat_le]
  rfl

/-- The place of the token that starts with this byte. -/
def place (c : UInt8) : ℕ := if digit c then 48 else c.toNat

/-- The first byte decides the place of the first token. -/
theorem exists_token (c : UInt8) (s : S8) :
    ∃ token rest, tokens (c :: s) = token :: rest ∧ (ofLex token).1 = place c := by
  rw [place]
  cases isDigit : digit c with
  | true => exact ⟨_, _, tokens_digit s isDigit, rfl⟩
  | false => exact ⟨_, _, tokens_other s isDigit, rfl⟩

/-- The places of two bytes are ordered like the bytes unless both are digits. -/
theorem place_lt {a b : UInt8} (unlike : digit a = false ∨ digit b = false) (less : a < b) :
    place a < place b := by
  have first := digit_iff a
  have second := digit_iff b
  rw [UInt8.lt_iff_toNat_lt] at less
  unfold place
  cases isDigit : digit a <;> cases isDigit' : digit b <;> simp [isDigit, isDigit'] at * <;> omega

/-- An earlier place decides the comparison. -/
theorem sign_places {a b : UInt8} (s t : S8) (less : place a < place b) :
    sign (tokens (a :: s)) (tokens (b :: t)) = -1 := by
  obtain ⟨token, rest, isToken, isPlace⟩ := exists_token a s
  obtain ⟨token', rest', isToken', isPlace'⟩ := exists_token b t
  rw [isToken, isToken', sign_cons, if_pos]
  exact Prod.Lex.lt_iff.mpr (.inl (by rw [isPlace, isPlace']; exact less))

/-- Two bytes that are not both digits decide like their tokens. -/
theorem sign_unlike {a b : UInt8} (s t : S8) (unlike : digit a = false ∨ digit b = false) :
    sign (tokens (a :: s)) (tokens (b :: t)) =
      if a < b then -1 else if b < a then 1 else sign (tokens s) (tokens t) := by
  split
  case isTrue less => exact sign_places s t (place_lt unlike less)
  case isFalse notLess =>
    split
    case isTrue greater =>
      rw [sign_swap, sign_places t s (place_lt unlike.symm greater), Int.neg_neg]
    case isFalse notGreater =>
      have same : a = b := UInt8.le_antisymm (UInt8.not_lt.mp notGreater) (UInt8.not_lt.mp notLess)
      subst same
      have other : digit a = false := by simpa using unlike
      rw [tokens_other s other, tokens_other t other, sign_cons, if_neg (lt_irrefl _),
        if_neg (lt_irrefl _)]

/-- Runs of the same length decide at their first difference. -/
theorem compareRuns_eq (r t : S8) (sameLength : r.length = t.length) :
    compareRuns r t = if sign (r.map UInt8.toNat) (t.map UInt8.toNat) = 0 then none
      else some (sign (r.map UInt8.toNat) (t.map UInt8.toNat)) := by
  induction r generalizing t with
  | nil =>
      cases t with
      | nil => simp [compareRuns]
      | cons b t => simp at sameLength
  | cons a r ih =>
      cases t with
      | nil => simp at sameLength
      | cons b t =>
          rw [compareRuns, List.map_cons, List.map_cons, sign_cons, ih t (by simpa using sameLength)]
          simp only [UInt8.lt_iff_toNat_lt]
          split
          · simp
          · split
            · simp
            · rfl

/-- The token of a run compares by the length of the run and then by its bytes. -/
theorem runToken_lt (r t : S8) : runToken r < runToken t ↔
    r.length < t.length ∨ r.length = t.length ∧ r.map UInt8.toNat < t.map UInt8.toNat := by
  simp only [runToken, Prod.Lex.toLex_lt_toLex, lt_irrefl, false_or, true_and]

/-- Two digits decide by the lengths of their runs, then by the runs, and then by what follows. -/
theorem sign_digits {a b : UInt8} (s t : S8) (isDigit : digit a = true) (isDigit' : digit b = true) :
    sign (tokens (a :: s)) (tokens (b :: t)) =
      if (digits (a :: s)).head.length < (digits (b :: t)).head.length then -1
      else if (digits (b :: t)).head.length < (digits (a :: s)).head.length then 1
      else (compareRuns (digits (a :: s)).head (digits (b :: t)).head).getD
        (sign (tokens (digits (a :: s)).tail) (tokens (digits (b :: t)).tail)) := by
  rw [tokens_digit s isDigit, tokens_digit t isDigit']
  generalize digits (a :: s) = pa
  generalize digits (b :: t) = pb
  rw [sign_cons]
  simp only [runToken_lt]
  rcases lt_trichotomy pa.head.length pb.head.length with shorter | same | longer
  · rw [if_pos (.inl shorter), if_pos shorter]
  · rw [compareRuns_eq _ _ same]
    simp only [same, lt_irrefl, false_or, true_and, if_false]
    rcases lt_trichotomy (pa.head.map UInt8.toNat) (pb.head.map UInt8.toNat) with less | equal | greater
    · rw [if_pos less, sign_of_lt less]
      rfl
    · rw [equal, if_neg (lt_irrefl _), if_neg (lt_irrefl _), sign_self]
      rfl
    · rw [if_neg greater.not_gt, if_pos greater, sign_of_gt greater]
      rfl
  · have notSame : pa.head.length ≠ pb.head.length := longer.ne'
    rw [if_neg (by omega), if_pos (.inl longer), if_neg longer.not_gt, if_pos longer]

/-- When one version has ended, the longer one has more tokens. -/
theorem sign_ended {va vb : S8}
    (ended : ∀ a restA b restB, va = a :: restA → vb = b :: restB → False) :
    sign (tokens va) (tokens vb) =
      if va.length < vb.length then -1 else if vb.length < va.length then 1 else 0 := by
  cases va with
  | nil =>
      cases vb with
      | nil => simp
      | cons b t =>
          obtain ⟨token, rest, isToken, _⟩ := exists_token b t
          rw [isToken, tokens, sign_nil_cons]
          simp
  | cons a s =>
      cases vb with
      | nil =>
          obtain ⟨token, rest, isToken, _⟩ := exists_token a s
          rw [isToken, tokens, sign_cons_nil]
          simp
      | cons b t => exact (ended a s b t rfl rfl).elim

/-- Versions compare like the lists of their tokens. -/
theorem compareVersions_eq (va vb : S8) :
    compareVersions va vb = sign (tokens va) (tokens vb) := by
  have unlike_iff : ∀ a b : UInt8, (!digit a || !digit b) = true ↔
      digit a = false ∨ digit b = false := by simp
  have alike_iff : ∀ a b : UInt8, ¬ (!digit a || !digit b) = true ↔
      digit a = true ∧ digit b = true := by simp
  induction va, vb using compareVersions.induct with
  | case1 a restA b restB unlike less =>
      rw [compareVersions, dif_pos unlike, sign_unlike _ _ ((unlike_iff a b).mp unlike),
        if_pos less, if_pos less]
  | case2 a restA b restB unlike notLess greater =>
      rw [compareVersions, dif_pos unlike, sign_unlike _ _ ((unlike_iff a b).mp unlike),
        if_neg notLess, if_pos greater, if_neg notLess, if_pos greater]
  | case3 a restA b restB unlike notLess notGreater ih =>
      rw [compareVersions, dif_pos unlike, sign_unlike _ _ ((unlike_iff a b).mp unlike), ih]
  | case4 a restA b restB alike pa pb shorter =>
      obtain ⟨isDigit, isDigit'⟩ := (alike_iff a b).mp alike
      rw [compareVersions, dif_neg alike, sign_digits _ _ isDigit isDigit', if_pos shorter]
      exact (if_pos shorter).symm
  | case5 a restA b restB alike pa pb notShorter longer =>
      obtain ⟨isDigit, isDigit'⟩ := (alike_iff a b).mp alike
      rw [compareVersions, dif_neg alike, sign_digits _ _ isDigit isDigit', if_neg notShorter,
        if_pos longer]
      exact ((if_neg notShorter).trans (if_pos longer)).symm
  | case6 a restA b restB alike pa pb notShorter notLonger ih =>
      obtain ⟨isDigit, isDigit'⟩ := (alike_iff a b).mp alike
      rw [compareVersions, dif_neg alike, sign_digits _ _ isDigit isDigit', ← ih]
  | case7 va vb ended shorter => rw [compareVersions, sign_ended ended]; exact ended
  | case8 va vb ended notShorter longer => rw [compareVersions, sign_ended ended]; exact ended
  | case9 va vb ended notShorter notLonger => rw [compareVersions, sign_ended ended]; exact ended

/-- The bytes of a token. -/
def Token.text (token : Token) : S8 :=
  if (ofLex (ofLex token).2).1 = 0 then [UInt8.ofNat (ofLex token).1]
  else (ofLex (ofLex token).2).2.map UInt8.ofNat

/-- A run can be read back from its token. -/
theorem text_runToken {run : S8} (nonempty : run ≠ []) : (runToken run).text = run := by
  have back : UInt8.ofNat ∘ UInt8.toNat = id := funext fun _ => UInt8.ofNat_toNat
  simp [Token.text, runToken, nonempty, back]

/-- A byte can be read back from its token. -/
theorem text_byteToken (c : UInt8) : (byteToken c).text = [c] := by
  simp [Token.text, byteToken]

/-- A version is the text of its tokens. -/
theorem text_tokens (version : S8) : (tokens version).flatMap Token.text = version := by
  induction version using tokens.induct with
  | case1 => rw [tokens, List.flatMap_nil]
  | case2 c s isDigit ih =>
      have nonempty : (digits (c :: s)).head ≠ [] := by
        simp [digits, isDigit]
      rw [tokens_digit s isDigit, List.flatMap_cons, ih, text_runToken nonempty]
      exact List.takeWhile_append_dropWhile
  | case3 c s other ih =>
      rw [tokens_other s (by simpa using other), List.flatMap_cons, ih, text_byteToken]
      rfl

/-- Different versions have different tokens. -/
theorem tokens_injective : Function.Injective tokens :=
  Function.LeftInverse.injective text_tokens

/-- The order of the versions is the order of their tokens. -/
@[reducible] def versionOrder : LinearOrder S8 := LinearOrder.lift' tokens tokens_injective

/-- The operators are the relations of this order. -/
structure OperatorsOrder (order : LinearOrder S8) : Prop where
  lt : ∀ a b, validCompare .lt (compareVersions a b) = some (decide (order.lt a b))
  lte : ∀ a b, validCompare .lte (compareVersions a b) = some (decide (order.le a b))
  eq : ∀ a b, validCompare .eq (compareVersions a b) = some (decide (a = b))
  gte : ∀ a b, validCompare .gte (compareVersions a b) = some (decide (order.le b a))
  gt : ∀ a b, validCompare .gt (compareVersions a b) = some (decide (order.lt b a))

/-- Only equal versions compare as equal. -/
theorem compareVersions_eq_zero (a b : S8) : compareVersions a b = 0 ↔ a = b := by
  rw [compareVersions_eq, sign_eq_zero, tokens_injective.eq_iff]

/-- The operators agree with each other on all versions. -/
theorem operatorsOrder : OperatorsOrder versionOrder where
  lt a b := by
    have less : compareVersions a b < 0 ↔ versionOrder.lt a b := by
      rw [compareVersions_eq, sign_lt_zero]
      rfl
    exact congrArg some (decide_eq_decide.mpr less)
  lte a b := by
    have below : compareVersions a b ≤ 0 ↔ versionOrder.le a b := by
      rw [compareVersions_eq, sign_nonpos]
      rfl
    exact congrArg some (decide_eq_decide.mpr below)
  eq a b := congrArg some (decide_eq_decide.mpr (compareVersions_eq_zero a b))
  gte a b := by
    have above : compareVersions a b ≥ 0 ↔ versionOrder.le b a := by
      rw [compareVersions_eq, ge_iff_le, sign_nonneg]
      rfl
    exact congrArg some (decide_eq_decide.mpr above)
  gt a b := by
    have greater : compareVersions a b > 0 ↔ versionOrder.lt b a := by
      rw [compareVersions_eq, gt_iff_lt, zero_lt_sign]
      rfl
    exact congrArg some (decide_eq_decide.mpr greater)

/-- The comparison is a linear order of all versions, and the operators are its relations. -/
theorem compareVersions_total :
    (∀ a b, compareVersions a b = -1 ∨ compareVersions a b = 0 ∨ compareVersions a b = 1) ∧
    (∀ a b, compareVersions b a = -compareVersions a b) ∧
    (∀ a b, compareVersions a b = 0 ↔ a = b) ∧
    (∀ a b c, compareVersions a b ≤ 0 → compareVersions b c ≤ 0 → compareVersions a c ≤ 0) ∧
    ∃ order : LinearOrder S8, OperatorsOrder order := by
  refine ⟨fun a b => ?_, fun a b => ?_, compareVersions_eq_zero, fun a b c first second => ?_,
    versionOrder, operatorsOrder⟩
  · rw [compareVersions_eq]
    exact sign_range _ _
  · rw [compareVersions_eq, compareVersions_eq]
    exact sign_swap _ _
  · rw [compareVersions_eq, sign_nonpos] at *
    exact first.trans second

end UConfig
