/-
This file treats a fixed array and an index of its last used slot as a stack.
-/

import Mathlib.Data.List.Basic

namespace SlotStack

variable {Item : Type*} {capacity : Nat}

/-- A read outside of the array has no value. -/
def read (slots : Vector Item capacity) (index : Int) : Option Item :=
  if 0 ≤ index then slots[index.toNat]? else none

/-- A write outside of the array has no result. -/
def write (slots : Vector Item capacity) (index : Int) (item : Item) :
    Option (Vector Item capacity) :=
  if inside : 0 ≤ index ∧ index.toNat < capacity then
    some (slots.set index.toNat item inside.2)
  else none

/-- The used slots hold the list, and its head stands in the last of them. -/
structure Holds (slots : Vector Item capacity) (top : Int) (items : List Item) : Prop where
  size : top + 1 = items.length
  slot : ∀ index, index < items.length → slots[index]? = items.reverse[index]?

/-- Without items the top stands below the first slot. -/
theorem Holds.empty (slots : Vector Item capacity) : Holds slots (-1) [] :=
  ⟨rfl, fun _ inside => by simp at inside⟩

/-- No stack is larger than its array. -/
theorem Holds.length_le {slots : Vector Item capacity} {top : Int} {items : List Item}
    (holds : Holds slots top items) : items.length ≤ capacity := by
  by_contra large
  have inside : capacity < items.length := by omega
  have slot := holds.slot capacity inside
  rw [List.getElem?_eq_getElem (by simpa using inside)] at slot
  simp at slot

/-- The top is always a slot. -/
theorem Holds.top_lt {slots : Vector Item capacity} {top : Int} {items : List Item}
    (holds : Holds slots top items) : top < capacity := by
  have := holds.length_le
  have := holds.size
  omega

/-- The stack is empty when its top stands below the first slot. -/
theorem Holds.nil_iff {slots : Vector Item capacity} {top : Int} {items : List Item}
    (holds : Holds slots top items) : items = [] ↔ top < 0 := by
  have size := holds.size
  rw [← List.length_eq_zero_iff]
  omega

/-- The last used slot holds the head. -/
theorem Holds.read_top {slots : Vector Item capacity} {top : Int} {item : Item}
    {items : List Item} (holds : Holds slots top (item :: items)) :
    read slots top = some item := by
  have size := holds.size
  rw [List.length_cons] at size
  have same : top.toNat = items.length := by omega
  have slot := holds.slot items.length (by simp)
  rw [read, if_pos (by omega), same, slot]
  simp

/-- Forgetting the last used slot removes the head. -/
theorem Holds.pop {slots : Vector Item capacity} {top : Int} {item : Item}
    {items : List Item} (holds : Holds slots top (item :: items)) :
    Holds slots (top - 1) items where
  size := by
    have size := holds.size
    rw [List.length_cons] at size
    omega
  slot index inside := by
    rw [holds.slot index (by simp; omega), List.reverse_cons,
      List.getElem?_append_left (by simpa using inside)]

/-- A write one above the last used slot adds a head. -/
theorem Holds.push {slots slots' : Vector Item capacity} {top : Int} {item : Item}
    {items : List Item} (holds : Holds slots top items)
    (written : write slots (top + 1) item = some slots') :
    Holds slots' (top + 1) (item :: items) := by
  have size := holds.size
  have same : (top + 1).toNat = items.length := by omega
  unfold write at written
  split at written
  case isFalse => simp at written
  case isTrue inside =>
    cases written
    refine ⟨by simp [size], fun index bound => ?_⟩
    simp only [List.length_cons] at bound
    rw [List.reverse_cons]
    by_cases last : index = items.length
    · subst last
      simp [same]
    · rw [List.getElem?_append_left (by simp; omega), ← holds.slot index (by omega)]
      rw [Vector.getElem?_set_ne]
      omega

/-- A write to the last used slot replaces the head. -/
theorem Holds.replace {slots slots' : Vector Item capacity} {top : Int} {item item' : Item}
    {items : List Item} (holds : Holds slots top (item :: items))
    (written : write slots top item' = some slots') :
    Holds slots' top (item' :: items) := by
  have written' : write slots (top - 1 + 1) item' = some slots' := by
    rw [Int.sub_add_cancel]
    exact written
  have pushed := holds.pop.push written'
  rwa [Int.sub_add_cancel] at pushed

/-- A write inside of the array succeeds. -/
theorem write_isSome (slots : Vector Item capacity) (index : Int) (item : Item)
    (nonneg : 0 ≤ index) (inside : index < capacity) :
    ∃ slots', write slots index item = some slots' := by
  refine ⟨slots.set index.toNat item (by omega), ?_⟩
  rw [write, dif_pos ⟨nonneg, by omega⟩]

/-- A write changes no other slot. -/
theorem write_other {slots slots' : Vector Item capacity} {index : Int} {item : Item}
    (written : write slots index item = some slots') {other : Int} (different : other ≠ index) :
    read slots' other = read slots other := by
  unfold write at written
  split at written
  case isFalse => simp at written
  case isTrue inside =>
    cases written
    unfold read
    split
    case isTrue nonneg => rw [Vector.getElem?_set_ne]; omega
    case isFalse => rfl

end SlotStack
