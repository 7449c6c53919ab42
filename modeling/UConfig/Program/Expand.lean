/-
This file gives the expansion of one string as the result of its loop.
-/

import UConfig.Proof.Expand.Simulation

namespace UConfig

/-- The written bytes go to the output of the caller. -/
def expand (global env : Env) (path str : S8) : Expanded :=
  Loop.result (expandBody global env path) (expandStart str)
    (expandBody_ends global env path str).halts

/-- The expansion is the one of the recursive expander. -/
theorem expand_eq (global env : Env) (path str : S8) :
    expand global env path str = (expandRecursive (lookup global env) 127 str).outcome path :=
  Loop.result_eq (expandBody_ends global env path str) _

/-- The loop can be evaluated as the recursive expander. -/
theorem expand_eq_recursive : expand = fun global env path str =>
    (expandRecursive (lookup global env) 127 str).outcome path := by
  funext global env path str
  exact expand_eq global env path str

/-- A text without a dollar has nothing to expand. -/
theorem expandScan_plain {s : S8} (plain : '$'.toUInt8 ∉ s) : expandScan s = .plain := by
  induction s using expandScan.induct with
  | case1 c d rest isReference => simp [isReference] at plain
  | case2 c d rest _ isDollars => simp [isDollars] at plain
  | case3 c d rest notReference notDollars ih =>
      rw [expandScan, if_neg notReference, if_neg notDollars,
        ih fun member => plain (List.mem_cons_of_mem _ member)]
      rfl
  | case4 s short =>
      unfold expandScan
      split
      · exact absurd rfl (short _ _ _)
      · rfl

/-- A string without a dollar is copied. -/
theorem expand_plain (global env : Env) (path str : S8) (plain : '$'.toUInt8 ∉ str) :
    expand global env path str = ⟨str, none⟩ := by
  rw [expand_eq, expandRecursive, expandText_plain _ _ _ (expandScan_plain plain)]
  rfl

/-- A single reference is replaced by a value that has no references of its own. -/
theorem expand_reference {global env : Env} (path : S8) {str head name tail value : S8}
    (scan : expandScan str = .reference head name tail)
    (found : lookup global env name = some value) (plainValue : '$'.toUInt8 ∉ value)
    (plainTail : '$'.toUInt8 ∉ tail) :
    expand global env path str = ⟨head ++ (value ++ tail), none⟩ := by
  rw [expand_eq, expandRecursive, (expandText_reference _ _ _ scan).1, found,
    expandText_plain _ _ _ (expandScan_plain plainTail)]
  dsimp only
  rw [expandRecursive, expandText_plain _ _ _ (expandScan_plain plainValue)]
  rfl

end UConfig
