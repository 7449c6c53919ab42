/-
This file gives texts that follow one another until one of them stops.
-/

import Mathlib.Data.List.Basic

/-- A text that has been written, and what keeps others from following it. -/
structure Emission (Symbol Stop : Type*) where
  written : List Symbol
  stop : Option Stop

namespace Emission

variable {Symbol Stop : Type*}

/-- A text that others may follow. -/
def print (text : List Symbol) : Emission Symbol Stop := ⟨text, none⟩

/-- The second text only follows when the first one does not stop. -/
def andThen (first second : Emission Symbol Stop) : Emission Symbol Stop :=
  match first.stop with
  | none => ⟨first.written ++ second.written, second.stop⟩
  | some stop => ⟨first.written, some stop⟩

@[simp] theorem print_andThen (text : List Symbol) (second : Emission Symbol Stop) :
    (print text).andThen second = ⟨text ++ second.written, second.stop⟩ := rfl

/-- Three texts may be joined from either side. -/
theorem andThen_assoc (first second third : Emission Symbol Stop) :
    (first.andThen second).andThen third = first.andThen (second.andThen third) := by
  obtain ⟨written, stop⟩ := first
  obtain ⟨written', stop'⟩ := second
  cases stop <;> cases stop' <;> simp [andThen]

/-- Two texts go on when both of them do. -/
theorem andThen_succeeds (first second : Emission Symbol Stop) :
    (first.andThen second).stop = none ↔ first.stop = none ∧ second.stop = none := by
  obtain ⟨written, stop⟩ := first
  cases stop <;> simp [andThen]

/-- The second text stands behind a first one that goes on. -/
theorem andThen_written {first : Emission Symbol Stop} (succeeds : first.stop = none)
    (second : Emission Symbol Stop) :
    (first.andThen second).written = first.written ++ second.written := by
  rw [andThen, succeeds]

end Emission
