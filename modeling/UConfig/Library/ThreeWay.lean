/-
This file gives comparisons of a linear order whose result is a sign.
-/

import Mathlib.Data.List.Lex
import Mathlib.Algebra.Order.Group.Int
import Mathlib.Order.Monotone.Basic

namespace ThreeWay

variable {Value : Type*} [LinearOrder Value] {x y z : Value}

/-- The sign is negative when the first value is the smaller one. -/
def sign (x y : Value) : Int := if x < y then -1 else if y < x then 1 else 0

/-- A smaller value gives a negative sign. -/
theorem sign_of_lt (less : x < y) : sign x y = -1 := if_pos less

/-- A larger value gives a positive sign. -/
theorem sign_of_gt (greater : y < x) : sign x y = 1 := by
  rw [sign, if_neg greater.not_gt, if_pos greater]

@[simp] theorem sign_self (x : Value) : sign x x = 0 := by
  rw [sign, if_neg (lt_irrefl x), if_neg (lt_irrefl x)]

/-- A sign has three values. -/
theorem sign_range (x y : Value) : sign x y = -1 ∨ sign x y = 0 ∨ sign x y = 1 := by
  rcases lt_trichotomy x y with less | same | greater
  · exact .inl (sign_of_lt less)
  · exact .inr (.inl (same ▸ sign_self x))
  · exact .inr (.inr (sign_of_gt greater))

/-- The sign changes with the order of its arguments. -/
theorem sign_swap (x y : Value) : sign y x = -sign x y := by
  rcases lt_trichotomy x y with less | same | greater
  · rw [sign_of_lt less, sign_of_gt less, Int.neg_neg]
  · rw [same, sign_self, Int.neg_zero]
  · rw [sign_of_gt greater, sign_of_lt greater]

/-- A negative sign is a smaller value. -/
theorem sign_lt_zero : sign x y < 0 ↔ x < y := by
  constructor
  · intro negative
    by_contra notLess
    rcases (not_lt.mp notLess).lt_or_eq with greater | same
    · rw [sign_of_gt greater] at negative
      omega
    · rw [same, sign_self] at negative
      omega
  · intro less
    rw [sign_of_lt less]
    decide

/-- A positive sign is a larger value. -/
theorem zero_lt_sign : 0 < sign x y ↔ y < x := by
  have swapped : sign y x < 0 ↔ y < x := sign_lt_zero
  rw [← swapped, sign_swap x y, Int.neg_lt_zero_iff]

/-- A sign is not positive when the value is not larger. -/
theorem sign_nonpos : sign x y ≤ 0 ↔ x ≤ y := by
  rw [← not_lt, ← not_lt, zero_lt_sign]

/-- A sign is not negative when the value is not smaller. -/
theorem sign_nonneg : 0 ≤ sign x y ↔ y ≤ x := by
  rw [← not_lt, ← not_lt, sign_lt_zero]

/-- Only equal values have the sign zero. -/
theorem sign_eq_zero : sign x y = 0 ↔ x = y := by
  rw [le_antisymm_iff, le_antisymm_iff, sign_nonpos, sign_nonneg]

/-- A strictly monotone function keeps the sign. -/
theorem sign_map {Other : Type*} [LinearOrder Other] {f : Value → Other} (mono : StrictMono f)
    (x y : Value) : sign (f x) (f y) = sign x y := by
  simp only [sign, mono.lt_iff_lt]

/-- The first difference of two lists decides. -/
theorem sign_cons (x y : Value) (xs ys : List Value) :
    sign (x :: xs) (y :: ys) = if x < y then -1 else if y < x then 1 else sign xs ys := by
  rcases lt_trichotomy x y with less | same | greater
  · rw [if_pos less, sign_of_lt (List.cons_lt_cons_iff.mpr (.inl less))]
  · subst same
    have tails : StrictMono (List.cons x) :=
      fun _ _ less => List.cons_lt_cons_iff.mpr (.inr ⟨rfl, less⟩)
    rw [if_neg (lt_irrefl x), if_neg (lt_irrefl x), sign_map tails]
  · rw [if_neg greater.not_gt, if_pos greater, sign_of_gt (List.cons_lt_cons_iff.mpr (.inl greater))]

@[simp] theorem sign_nil_cons (y : Value) (ys : List Value) : sign [] (y :: ys) = -1 :=
  sign_of_lt (List.nil_lt_cons y ys)

@[simp] theorem sign_cons_nil (x : Value) (xs : List Value) : sign (x :: xs) [] = 1 :=
  sign_of_gt (List.nil_lt_cons x xs)

end ThreeWay
