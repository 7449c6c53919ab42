/-
This file proves when the comparison of dotted versions is the comparison of their numbers.
-/

import UConfig.Proof.Version.Order
import Mathlib.Data.Nat.Digits.Lemmas

namespace UConfig

open ThreeWay

/-- A component of a dotted version is a run of digits. -/
structure Component where
  run : S8
  nonempty : run ≠ []
  digits : ∀ c ∈ run, digit c = true

structure DottedVersion where
  first : Component
  rest : List Component

def DottedVersion.components (version : DottedVersion) : List Component :=
  version.first :: version.rest

/-- Every component but the first one follows a dot. -/
def dottedRest (components : List Component) : S8 :=
  components.flatMap fun component => '.'.toUInt8 :: component.run

def DottedVersion.text (version : DottedVersion) : S8 :=
  version.first.run ++ dottedRest version.rest

def digitValue (c : UInt8) : ℕ := c.toNat - '0'.toUInt8.toNat

/-- The number that a run of decimal digits spells. -/
def runValue (run : S8) : ℕ := Nat.ofDigits 10 (run.map digitValue).reverse

def Component.value (component : Component) : ℕ := runValue component.run

/-- The comparison of RPM goes from left to right, and the longer version is greater
when the other one has ended. -/
def rpmCompare : List Component → List Component → Int
  | [], [] => 0
  | [], _ :: _ => -1
  | _ :: _, [] => 1
  | x :: xs, y :: ys =>
      if x.value < y.value then -1
      else if y.value < x.value then 1
      else rpmCompare xs ys

/-- At the first component that is spelled differently, the spelling with more digits has the
larger value, or it only has more zeros and belongs to the greater version anyway. -/
def SpelledInOrder : List Component → List Component → Prop
  | x :: xs, y :: ys =>
      if x.run = y.run then SpelledInOrder xs ys
      else
        (x.run.length < y.run.length →
          x.value < y.value ∨ x.value = y.value ∧ rpmCompare xs ys = -1) ∧
        (y.run.length < x.run.length →
          y.value < x.value ∨ x.value = y.value ∧ rpmCompare xs ys = 1)
  | _, _ => True

/-- The first digit has the highest place. -/
theorem runValue_cons (c : UInt8) (run : S8) :
    runValue (c :: run) = digitValue c * 10 ^ run.length + runValue run := by
  rw [runValue, List.map_cons, List.reverse_cons, Nat.ofDigits_append, Nat.ofDigits_singleton,
    List.length_reverse, List.length_map, runValue, Nat.mul_comm, Nat.add_comm]

/-- A digit is less than ten. -/
theorem digitValue_lt {c : UInt8} (isDigit : digit c = true) : digitValue c < 10 := by
  have bounds := (digit_iff c).mp isDigit
  have zero : '0'.toUInt8.toNat = 48 := rfl
  rw [digitValue, zero]
  omega

/-- A run of digits is less than its power of ten. -/
theorem runValue_lt {run : S8} (digits : ∀ c ∈ run, digit c = true) :
    runValue run < 10 ^ run.length := by
  have below := Nat.ofDigits_lt_base_pow_length (b := 10) (l := (run.map digitValue).reverse)
    (by decide) (by simpa using fun c member => digitValue_lt (digits c member))
  simpa [runValue] using below

/-- The first digit decides between numbers with the same number of digits. -/
theorem runValue_cons_lt {a b : UInt8} {r t : S8} (sameLength : r.length = t.length)
    (isDigit : digit a = true) (digits : ∀ c ∈ r, digit c = true) (less : a.toNat < b.toNat) :
    runValue (a :: r) < runValue (b :: t) := by
  have below := runValue_lt digits
  have bounds := (digit_iff a).mp isDigit
  have zero : '0'.toUInt8.toNat = 48 := rfl
  have step : digitValue a + 1 ≤ digitValue b := by
    rw [digitValue, digitValue, zero]
    omega
  have scaled := Nat.mul_le_mul_right (10 ^ r.length) step
  rw [Nat.add_mul, Nat.one_mul] at scaled
  rw [runValue_cons, runValue_cons, ← sameLength]
  omega

/-- Runs of the same length compare like the numbers that they spell. -/
theorem sign_runValue {r t : S8} (sameLength : r.length = t.length)
    (digits : ∀ c ∈ r, digit c = true) (digits' : ∀ c ∈ t, digit c = true) :
    sign (r.map UInt8.toNat) (t.map UInt8.toNat) = sign (runValue r) (runValue t) := by
  induction r generalizing t with
  | nil =>
      cases t with
      | nil => rw [sign_self, sign_self]
      | cons b t => simp at sameLength
  | cons a r ih =>
      cases t with
      | nil => simp at sameLength
      | cons b t =>
          have sameRest : r.length = t.length := by simpa using sameLength
          obtain ⟨isDigit, digits⟩ := List.forall_mem_cons.mp digits
          obtain ⟨isDigit', digits'⟩ := List.forall_mem_cons.mp digits'
          rw [List.map_cons, List.map_cons, sign_cons]
          rcases lt_trichotomy a.toNat b.toNat with less | same | greater
          · rw [if_pos less, sign_of_lt (runValue_cons_lt sameRest isDigit digits less)]
          · have mono : StrictMono fun value => digitValue a * 10 ^ t.length + value :=
              fun _ _ less => Nat.add_lt_add_left less _
            rw [UInt8.toNat_inj.mp same, if_neg (lt_irrefl _), if_neg (lt_irrefl _),
              ih sameRest digits digits', runValue_cons, runValue_cons, sameRest]
            rw [UInt8.toNat_inj.mp same] at mono
            exact (sign_map mono _ _).symm
          · rw [if_neg greater.not_gt, if_pos greater,
              sign_of_gt (runValue_cons_lt sameRest.symm isDigit' digits' greater)]

/-- A run of digits in front of something else is one token. -/
theorem tokens_run (component : Component) {rest : S8}
    (ends : ∀ c ∈ rest.head?, digit c = false) :
    tokens (component.run ++ rest) = runToken component.run :: tokens rest := by
  obtain ⟨c, run, isRun⟩ := List.exists_cons_of_ne_nil component.nonempty
  have isDigit : digit c = true := component.digits c (by rw [isRun]; exact List.mem_cons_self)
  have stops : rest.takeWhile digit = [] ∧ rest.dropWhile digit = rest := by
    cases rest with
    | nil => exact ⟨rfl, rfl⟩
    | cons d rest =>
        have other := ends d rfl
        exact ⟨List.takeWhile_cons_of_neg (by simp [other]), List.dropWhile_cons_of_neg (by simp [other])⟩
  have split : digits (component.run ++ rest) = ⟨component.run, rest⟩ := by
    rw [digits, List.takeWhile_append_of_pos component.digits,
      List.dropWhile_append_of_pos component.digits, stops.1, stops.2, List.append_nil]
  have whole := tokens_digit (run ++ rest) isDigit
  rw [← List.cons_append, ← isRun, split] at whole
  exact whole

/-- A run of digits ends before the next dot. -/
theorem dottedRest_ends (components : List Component) :
    ∀ c ∈ (dottedRest components).head?, digit c = false := by
  intro c first
  cases components with
  | nil => cases first
  | cons component components =>
      cases first
      decide

/-- A dot and a run are two tokens. -/
theorem tokens_dottedRest (component : Component) (components : List Component) :
    tokens (dottedRest (component :: components)) =
      byteToken '.'.toUInt8 :: runToken component.run :: tokens (dottedRest components) := by
  rw [dottedRest, List.flatMap_cons, List.cons_append, tokens_other _ (by decide)]
  exact congrArg _ (tokens_run component (dottedRest_ends components))

/-- The tokens of the components without the dots. -/
def runTokens (components : List Component) : List Token :=
  components.map fun component => runToken component.run

/-- The tokens of the runs come one by one. -/
theorem runTokens_cons (x : Component) (xs : List Component) :
    runTokens (x :: xs) = runToken x.run :: runTokens xs := rfl

/-- The dots do not decide the comparison. -/
theorem sign_dottedRest (xs ys : List Component) :
    sign (tokens (dottedRest xs)) (tokens (dottedRest ys)) = sign (runTokens xs) (runTokens ys) := by
  have ended : tokens (dottedRest []) = [] := by rw [dottedRest, List.flatMap_nil, tokens]
  induction xs generalizing ys with
  | nil =>
      cases ys with
      | nil => rw [sign_self, sign_self]
      | cons y ys =>
          rw [ended, tokens_dottedRest, sign_nil_cons, runTokens_cons]
          exact (sign_nil_cons _ _).symm
  | cons x xs ih =>
      cases ys with
      | nil =>
          rw [ended, tokens_dottedRest, sign_cons_nil, runTokens_cons]
          exact (sign_cons_nil _ _).symm
      | cons y ys =>
          rw [tokens_dottedRest, tokens_dottedRest, sign_cons, if_neg (lt_irrefl _),
            if_neg (lt_irrefl _), sign_cons, ih, runTokens_cons, runTokens_cons, sign_cons]

/-- Dotted versions compare like the tokens of their components. -/
theorem compareVersions_text (v w : DottedVersion) :
    compareVersions v.text w.text = sign (runTokens v.components) (runTokens w.components) := by
  rw [compareVersions_eq, DottedVersion.text, DottedVersion.text,
    tokens_run _ (dottedRest_ends _), tokens_run _ (dottedRest_ends _), sign_cons, sign_dottedRest,
    ← sign_cons]
  rfl

/-- Components that are spelled differently decide by their lengths, or else by their numbers. -/
theorem sign_runTokens_cons {x y : Component} (xs ys : List Component) (different : x.run ≠ y.run) :
    sign (runTokens (x :: xs)) (runTokens (y :: ys)) =
      if x.run.length < y.run.length then -1
      else if y.run.length < x.run.length then 1
      else sign x.value y.value := by
  rw [runTokens_cons, runTokens_cons, sign_cons]
  simp only [runToken_lt]
  rcases lt_trichotomy x.run.length y.run.length with shorter | same | longer
  · rw [if_pos (.inl shorter), if_pos shorter]
  · rw [Component.value, Component.value, ← sign_runValue same x.digits y.digits]
    simp only [same, lt_irrefl, false_or, true_and, if_false]
    rcases lt_trichotomy (x.run.map UInt8.toNat) (y.run.map UInt8.toNat) with less | equal | greater
    · rw [if_pos less, sign_of_lt less]
    · have toNat_injective : Function.Injective UInt8.toNat := fun _ _ => UInt8.toNat_inj.mp
      exact absurd (toNat_injective.list_map equal) different
    · rw [if_neg greater.not_gt, if_pos greater, sign_of_gt greater]
  · have notSame : x.run.length ≠ y.run.length := longer.ne'
    rw [if_neg (by omega), if_pos (.inl longer), if_neg longer.not_gt, if_pos longer]

/-- Different runs of one length have different values. -/
theorem value_ne {x y : Component} (same : x.run.length = y.run.length) (different : x.run ≠ y.run) :
    x.value ≠ y.value := by
  intro equal
  have byValue := sign_runValue same x.digits y.digits
  have toNat_injective : Function.Injective UInt8.toNat := fun _ _ => UInt8.toNat_inj.mp
  rw [← Component.value, ← Component.value, equal, sign_self, sign_eq_zero] at byValue
  exact different (toNat_injective.list_map byValue)

/-- A component decides for the smaller sign when it is smaller, or equal in front of a smaller rest. -/
theorem rpmCompare_cons_neg (x y : Component) (xs ys : List Component) :
    rpmCompare (x :: xs) (y :: ys) = -1 ↔
      x.value < y.value ∨ x.value = y.value ∧ rpmCompare xs ys = -1 := by
  rw [rpmCompare]
  rcases lt_trichotomy x.value y.value with less | same | greater
  · simp [less]
  · simp [same]
  · simp [greater, greater.not_gt, greater.ne']

/-- The first component that differs decides. -/
theorem rpmCompare_cons_pos (x y : Component) (xs ys : List Component) :
    rpmCompare (x :: xs) (y :: ys) = 1 ↔
      y.value < x.value ∨ x.value = y.value ∧ rpmCompare xs ys = 1 := by
  rw [rpmCompare]
  rcases lt_trichotomy x.value y.value with less | same | greater
  · simp [less, less.not_gt, less.ne]
  · simp [same]
  · simp [greater, greater.not_gt]

/-- The components compare by their numbers exactly when they are spelled in order. -/
theorem sign_runTokens (xs ys : List Component) :
    sign (runTokens xs) (runTokens ys) = rpmCompare xs ys ↔ SpelledInOrder xs ys := by
  induction xs generalizing ys with
  | nil =>
      cases ys with
      | nil => exact iff_of_true (sign_self _) trivial
      | cons y ys => exact iff_of_true (sign_nil_cons _ _) trivial
  | cons x xs ih =>
      cases ys with
      | nil => exact iff_of_true (sign_cons_nil _ _) trivial
      | cons y ys =>
          rw [SpelledInOrder]
          by_cases same : x.run = y.run
          · have equal : x.value = y.value := congrArg runValue same
            rw [if_pos same, rpmCompare, equal, if_neg (lt_irrefl _), if_neg (lt_irrefl _), ← ih,
              runTokens_cons, runTokens_cons, same, sign_cons, if_neg (lt_irrefl _),
              if_neg (lt_irrefl _)]
          rw [if_neg same, sign_runTokens_cons xs ys same, ← rpmCompare_cons_neg,
            ← rpmCompare_cons_pos]
          rcases lt_trichotomy x.run.length y.run.length with shorter | equal | longer
          · simp [shorter, shorter.not_gt, eq_comm]
          · have byValue : sign x.value y.value = rpmCompare (x :: xs) (y :: ys) := by
              rw [rpmCompare, sign]
              rcases (value_ne equal same).lt_or_gt with less | greater
              · rw [if_pos less, if_pos less]
              · rw [if_neg greater.not_gt, if_pos greater, if_neg greater.not_gt, if_pos greater]
            simp [equal, byValue]
          · simp [longer, longer.not_gt, eq_comm]

/-- The comparison follows RPM exactly for versions that are spelled in order. -/
theorem compareVersions_rpm (v w : DottedVersion) :
    compareVersions v.text w.text = rpmCompare v.components w.components ↔
      SpelledInOrder v.components w.components := by
  rw [compareVersions_text]
  exact sign_runTokens _ _

/-- A component without leading zeros is zero or starts with another digit. -/
def Component.Canonical (component : Component) : Prop :=
  component.run.head? = some '0'.toUInt8 → component.run.length = 1

/-- Without leading zeros the number with fewer digits is smaller. -/
theorem Component.Canonical.value_lt {x y : Component} (canonical : y.Canonical)
    (shorter : x.run.length < y.run.length) : x.value < y.value := by
  obtain ⟨c, run, isRun⟩ := List.exists_cons_of_ne_nil y.nonempty
  have digits := y.digits
  have positive := List.length_pos_of_ne_nil x.nonempty
  have notZero : c ≠ '0'.toUInt8 := by
    rintro rfl
    have single := canonical (by rw [isRun, List.head?_cons])
    omega
  rw [isRun] at digits
  have bounds := (digit_iff c).mp (digits c List.mem_cons_self)
  have above : 1 ≤ digitValue c := by
    have zero : '0'.toUInt8.toNat = 48 := rfl
    have notSame : c.toNat ≠ 48 := fun same => notZero (UInt8.toNat_inj.mp same)
    rw [digitValue, zero]
    omega
  calc x.value < 10 ^ x.run.length := runValue_lt x.digits
    _ ≤ 10 ^ run.length := by
        rw [isRun, List.length_cons] at shorter
        exact Nat.pow_le_pow_right (by decide) (by omega)
    _ ≤ digitValue c * 10 ^ run.length + runValue run :=
        Nat.le_add_right_of_le (Nat.le_mul_of_pos_left _ above)
    _ = y.value := by rw [← runValue_cons, ← isRun, value]

/-- Without leading zeros longer runs have larger values. -/
theorem spelledInOrder_of_canonical {xs ys : List Component} (canonical : ∀ x ∈ xs, x.Canonical)
    (canonical' : ∀ y ∈ ys, y.Canonical) : SpelledInOrder xs ys := by
  induction xs generalizing ys with
  | nil => trivial
  | cons x xs ih =>
      cases ys with
      | nil => trivial
      | cons y ys =>
          obtain ⟨first, canonical⟩ := List.forall_mem_cons.mp canonical
          obtain ⟨first', canonical'⟩ := List.forall_mem_cons.mp canonical'
          rw [SpelledInOrder]
          split
          · exact ih canonical canonical'
          · exact ⟨fun shorter => .inl (first'.value_lt shorter),
              fun longer => .inl (first.value_lt longer)⟩

/-- Versions without leading zeros compare like RPM compares them. -/
theorem compareVersions_canonical {v w : DottedVersion} (canonical : ∀ x ∈ v.components, x.Canonical)
    (canonical' : ∀ y ∈ w.components, y.Canonical) :
    compareVersions v.text w.text = rpmCompare v.components w.components := by
  rw [compareVersions_text]
  exact (sign_runTokens _ _).mpr (spelledInOrder_of_canonical canonical canonical')

def oneZeroFive : DottedVersion where
  first := ⟨S "1", by decide, by decide +kernel⟩
  rest := [⟨S "05", by decide, by decide +kernel⟩]

def oneFive : DottedVersion where
  first := ⟨S "1", by decide, by decide +kernel⟩
  rest := [⟨S "5", by decide, by decide +kernel⟩]

/-- A leading zero makes a version greater although the numbers are the same. -/
theorem compareVersions_zeros : ¬ ∀ v w : DottedVersion,
    compareVersions v.text w.text = rpmCompare v.components w.components := by
  intro always
  have zero := always oneZeroFive oneFive
  revert zero
  decide +kernel

end UConfig
