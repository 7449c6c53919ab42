/-
This file gives intervals that are used up piece by piece and proves that the pieces stay apart.
-/

import Mathlib.Order.CompletePartialOrder
import Mathlib.Order.Interval.Basic
import Mathlib.Order.Interval.Set.Disjoint

namespace Carving

variable {α : Type*} [Preorder α]

/-- One interval ends before the other one begins. -/
def Apart (first second : NonemptyInterval α) : Prop :=
  first.snd ≤ second.fst ∨ second.snd ≤ first.fst

/-- Being apart does not depend on the order. -/
theorem Apart.symm {first second : NonemptyInterval α} (apart : Apart first second) :
    Apart second first :=
  Or.symm apart

/-- What lies inside of an interval is apart from all that the interval is apart from. -/
theorem Apart.mono {first second smaller : NonemptyInterval α} (apart : Apart first second)
    (inside : smaller ≤ second) : Apart first smaller := by
  have bounds := NonemptyInterval.le_def.mp inside
  rcases apart with before | after
  · exact .inl (before.trans bounds.1)
  · exact .inr (bounds.2.trans after)

/-- No point is in both of the intervals, where an interval does not have its last point. -/
theorem Apart.disjoint {first second : NonemptyInterval α} (apart : Apart first second) :
    Disjoint (Set.Ico first.fst first.snd) (Set.Ico second.fst second.snd) := by
  refine Set.disjoint_left.mpr fun point inFirst inSecond => ?_
  rcases apart with before | after
  · exact lt_irrefl point (inFirst.2.trans_le (before.trans inSecond.1))
  · exact lt_irrefl point (inSecond.2.trans_le (after.trans inFirst.1))

/-- The pieces were taken from the whole, and all that is free is still apart from them. -/
structure Carved (whole free : NonemptyInterval α) (pieces : List (NonemptyInterval α)) : Prop where
  inside : ∀ piece ∈ pieces, piece ≤ whole
  apart : pieces.Pairwise Apart
  rest : free ≤ whole
  clear : ∀ piece ∈ pieces, Apart piece free

/-- Nothing has been carved from the whole yet. -/
theorem Carved.start (whole : NonemptyInterval α) : Carved whole whole [] where
  inside _ member := absurd member List.not_mem_nil
  apart := List.Pairwise.nil
  rest := le_rfl
  clear _ member := absurd member List.not_mem_nil

/-- A piece of the free interval can be taken if it is apart from what is free afterwards. -/
theorem Carved.take {whole free free' piece : NonemptyInterval α}
    {pieces : List (NonemptyInterval α)} (carved : Carved whole free pieces)
    (taken : piece ≤ free) (kept : free' ≤ free) (apart : Apart piece free') :
    Carved whole free' (piece :: pieces) where
  inside := List.forall_mem_cons.mpr ⟨taken.trans carved.rest, carved.inside⟩
  apart := List.pairwise_cons.mpr
    ⟨fun other member => ((carved.clear other member).mono taken).symm, carved.apart⟩
  rest := kept.trans carved.rest
  clear := List.forall_mem_cons.mpr
    ⟨apart, fun other member => (carved.clear other member).mono kept⟩

end Carving
