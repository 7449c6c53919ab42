/-
This file proves how the expansion relates to the recursive expander.
-/

import UConfig.Program.Expand

namespace UConfig

/-- The bytes in front of a reference that is too deep. -/
def Expansion.unwritten (expansion : Expansion) : S8 :=
  match expansion.stop with
  | some (.tooDeep run) => run
  | _ => []

/-- The expansion stays inside of its stack, fails as the recursive expander fails, and has written
what that one has written, without the bytes in front of a reference that is too deep. -/
structure Refines (path : S8) (expanded : Expanded) (expansion : Expansion) : Prop where
  inside : expanded.stop ≠ some .fault
  succeeds : expanded.stop = none ↔ expansion.stop = none
  undefined : ∀ name, expanded.stop = some (.fail (.undefinedVariable name path)) ↔
    expansion.stop = some (.undefined name)
  tooDeep : expanded.stop = some (.fail (.maxRecursionIn path)) ↔
    ∃ run, expansion.stop = some (.tooDeep run)
  written : expanded.written ++ expansion.unwritten = expansion.written

/-- The bytes in front of a reference that is too deep are the last ones that the recursive expander
has written. -/
theorem expandRecursive_tooDeep (global env : Env) {str run : S8}
    (deep : (expandRecursive (lookup global env) 127 str).stop = some (.tooDeep run)) :
    ∃ early, (expandRecursive (lookup global env) 127 str).written = early ++ run := by
  have follows := follows_recursive global env [] 127 str (expandStart str) []
    (expandStart_holds str) rfl
  generalize expandRecursive (lookup global env) 127 str = expansion at deep follows ⊢
  obtain ⟨written, failure⟩ := expansion
  subst deep
  obtain ⟨early, same, _⟩ := follows
  exact ⟨early, same⟩

/-- The outcome of the loop refines the expansion that it was made from. -/
theorem Expansion.refines_outcome (path : S8) {expansion : Expansion}
    (early : ∀ run, expansion.stop = some (.tooDeep run) →
      ∃ early, expansion.written = early ++ run) :
    Refines path (expansion.outcome path) expansion := by
  obtain ⟨written, failure⟩ := expansion
  cases failure with
  | none =>
      constructor <;> simp [outcome, unwritten]
  | some failure =>
      cases failure with
      | undefined name =>
          constructor <;> simp [outcome, unwritten, eq_comm]
      | tooDeep run =>
          obtain ⟨before, same⟩ := early run rfl
          dsimp only at same
          constructor <;> simp [outcome, unwritten, same]

/-- The loop always ends, and its outcome refines the recursive expander. -/
theorem expand_refines (global env : Env) (path str : S8) :
    Loop.Ends (expandBody global env path) (expandStart str) (expand global env path str) ∧
      Refines path (expand global env path str)
        (expandRecursive (lookup global env) 127 str) := by
  constructor
  · exact Loop.result_ends _ _ _
  · rw [expand_eq]
    apply Expansion.refines_outcome
    intro run deep
    exact expandRecursive_tooDeep global env deep

/-- A cyclic definition is cut before the last copy of its text is written. -/
theorem expand_omits : ¬ ∀ (global env : Env) (path str : S8),
    (expand global env path str).written =
      (expandRecursive (lookup global env) 127 str).written := by
  intro same
  have cyclic := same .empty (Env.empty.assign (S "x") (some (S "a${x}"))) (S "x.pc") (S "${x}")
  rw [expand_eq] at cyclic
  revert cyclic
  decide +kernel

end UConfig
