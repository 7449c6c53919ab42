/-
This file gives a memory of cells at integer addresses and the lists of cells that it holds.
-/

import Mathlib.Data.List.Basic
import Mathlib.Algebra.Order.Group.Int

/-- The addresses of an object start at zero. -/
abbrev Memory (Cell : Type*) := Int → Cell

namespace Memory

variable {Cell : Type*}

/-- The cells are written one behind the other from the base on. -/
def write (mem : Memory Cell) (base : Int) (cells : List Cell) : Memory Cell := fun address =>
  if address < base then mem address else (cells[(address - base).toNat]?).getD (mem address)

/-- A write outside of an object of this size has no result. -/
def store (size : Nat) (mem : Memory Cell) (base : Int) (cells : List Cell) :
    Option (Memory Cell) :=
  if cells = [] ∨ 0 ≤ base ∧ base + cells.length ≤ size then some (mem.write base cells) else none

/-- The list of cells stands in the memory from the base on. -/
def Holds (mem : Memory Cell) (base : Int) (cells : List Cell) : Prop :=
  ∀ index (inside : index < cells.length), mem (base + index) = cells[index]

/-- A write changes nothing outside of its cells. -/
theorem write_outside (mem : Memory Cell) {base address : Int} {cells : List Cell}
    (outside : address < base ∨ base + cells.length ≤ address) :
    mem.write base cells address = mem address := by
  rw [write]
  split
  case isTrue => rfl
  case isFalse above =>
    have beyond : cells.length ≤ (address - base).toNat := by omega
    rw [List.getElem?_eq_none beyond]
    rfl

/-- What has been written can be read. -/
theorem holds_write (mem : Memory Cell) (base : Int) (cells : List Cell) :
    Holds (mem.write base cells) base cells := by
  intro index inside
  have offset : (base + index - base).toNat = index := by omega
  rw [write, if_neg (by omega), offset, List.getElem?_eq_getElem inside]
  rfl

/-- A write keeps what stands beside it. -/
theorem Holds.write {mem : Memory Cell} {base base' : Int} {cells cells' : List Cell}
    (holds : Holds mem base cells)
    (apart : base + cells.length ≤ base' ∨ base' + cells'.length ≤ base) :
    Holds (mem.write base' cells') base cells := by
  intro index inside
  rw [write_outside mem (by omega)]
  exact holds index inside

/-- Every memory holds no cells at all. -/
theorem holds_nil (mem : Memory Cell) (base : Int) : Holds mem base [] :=
  fun _ inside => absurd inside (Nat.not_lt_zero _)

/-- Adjacent lists are one list. -/
theorem holds_append {mem : Memory Cell} {base : Int} {first second : List Cell} :
    Holds mem base (first ++ second) ↔
      Holds mem base first ∧ Holds mem (base + first.length) second := by
  constructor
  · intro holds
    constructor
    · intro index inside
      have value := holds index (by rw [List.length_append]; omega)
      rwa [List.getElem_append_left inside] at value
    · intro index inside
      have value := holds (first.length + index) (by rw [List.length_append]; omega)
      rw [List.getElem_append_right (Nat.le_add_right _ _)] at value
      simpa only [Nat.add_sub_cancel_left, Int.natCast_add, Int.add_assoc] using value
  · rintro ⟨left, right⟩ index inside
    by_cases low : index < first.length
    · rw [List.getElem_append_left low]
      exact left index low
    · obtain ⟨above, rfl⟩ := Nat.exists_eq_add_of_le (not_lt.mp low)
      rw [List.length_append] at inside
      rw [List.getElem_append_right (Nat.le_add_right _ _)]
      have value := right above (by omega)
      simpa only [Nat.add_sub_cancel_left, Int.natCast_add, Int.add_assoc] using value

/-- A list that is written behind another one continues it. -/
theorem Holds.extend {mem : Memory Cell} {base : Int} {cells : List Cell}
    (holds : Holds mem base cells) (more : List Cell) :
    Holds (mem.write (base + cells.length) more) base (cells ++ more) :=
  holds_append.mpr ⟨holds.write (.inl le_rfl), holds_write _ _ _⟩

/-- A store inside of the object is the write. -/
theorem store_eq_some {size : Nat} {mem : Memory Cell} {base : Int} {cells : List Cell}
    (inside : 0 ≤ base ∧ base + cells.length ≤ size) :
    store size mem base cells = some (mem.write base cells) :=
  if_pos (.inr inside)

end Memory
