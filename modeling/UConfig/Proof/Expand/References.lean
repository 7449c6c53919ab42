/-
This file proves which variables an expansion depends on and when it succeeds.
-/

import UConfig.Proof.Expand.Refinement

namespace UConfig

/-- The names of the references of a text, from left to right. -/
def references : S8 → List S8
  | [] => []
  | [_] => []
  | c :: d :: rest =>
      if c = '$'.toUInt8 ∧ d = '{'.toUInt8 then
        referenceName rest :: references (referenceTail rest)
      else if c = '$'.toUInt8 ∧ d = '$'.toUInt8 then references rest
      else references (d :: rest)
termination_by s => s.length
decreasing_by
  · have := referenceTail_length rest
    simp only [List.length_cons]
    omega
  · simp only [List.length_cons]
    omega
  · simp

/-- The variables that the expansion of a text opens, directly or in the value of another one. -/
inductive Reaches (value : S8 → Option S8) : S8 → S8 → Prop
  | here {s name : S8} (member : name ∈ references s) : Reaches value s name
  | inside {s name text other : S8} (member : name ∈ references s) (bound : value name = some text)
      (reaches : Reaches value text other) : Reaches value s other

/-- Every reference is defined, and the definitions are nested within the limit. -/
def Expandable (value : S8 → Option S8) : Nat → S8 → Prop
  | 0, s => references s = []
  | levels + 1, s => ∀ name ∈ references s, ∃ text, value name = some text ∧
      Expandable value levels text

/-- A text only asks for its references. -/
theorem expandText_congr {refer refer' : S8 → S8 → Expansion} {s : S8}
    (same : ∀ name ∈ references s, ∀ run, refer run name = refer' run name) (run : S8) :
    expandText refer run s = expandText refer' run s := by
  fun_induction expandText refer run s with
  | case1 run => rw [expandText]
  | case2 run c => rw [expandText]
  | case3 run c d rest isReference ih =>
      rw [references, if_pos isReference] at same
      rw [expandText, if_pos isReference, same _ List.mem_cons_self,
        ih fun name member => same name (List.mem_cons_of_mem _ member)]
  | case4 run c d rest notReference isDollars ih =>
      rw [references, if_neg notReference, if_pos isDollars] at same
      rw [expandText, if_neg notReference, if_pos isDollars, ih same]
  | case5 run c d rest notReference notDollars ih =>
      rw [references, if_neg notReference, if_neg notDollars] at same
      rw [expandText, if_neg notReference, if_neg notDollars, ih same]

/-- A text succeeds when each of its references does. -/
theorem expandText_succeeds {refer : S8 → S8 → Expansion} {succeeds : S8 → Prop}
    (each : ∀ run name, (refer run name).stop = none ↔ succeeds name) (run s : S8) :
    (expandText refer run s).stop = none ↔ ∀ name ∈ references s, succeeds name := by
  fun_induction expandText refer run s with
  | case1 run => simp [references, Emission.print]
  | case2 run c => simp [references, Emission.print]
  | case3 run c d rest isReference ih =>
      rw [references, if_pos isReference, Emission.andThen_succeeds, each, ih,
        List.forall_mem_cons]
  | case4 run c d rest notReference isDollars ih =>
      rw [references, if_neg notReference, if_pos isDollars, Emission.andThen_succeeds, ih]
      exact and_iff_right rfl
  | case5 run c d rest notReference notDollars ih =>
      rw [references, if_neg notReference, if_neg notDollars, Emission.andThen_succeeds, ih]
      exact and_iff_right rfl

/-- An expansion only depends on the variables that it reaches. -/
theorem expandRecursive_congr {value value' : S8 → Option S8} {s : S8}
    (same : ∀ name, Reaches value s name → value name = value' name) (levels : Nat) :
    expandRecursive value levels s = expandRecursive value' levels s := by
  induction levels generalizing s with
  | zero => rfl
  | succ levels ih =>
      rw [expandRecursive, expandRecursive]
      apply expandText_congr
      intro name member run
      rw [← same name (.here member)]
      cases bound : value name with
      | none => rfl
      | some text => exact ih fun other reaches => same other (.inside member bound reaches)

/-- An expansion succeeds exactly when its text is expandable. -/
theorem expandRecursive_succeeds (value : S8 → Option S8) (levels : Nat) (s : S8) :
    (expandRecursive value levels s).stop = none ↔ Expandable value levels s := by
  induction levels generalizing s with
  | zero =>
      have never : ∀ run name : S8,
          ((fun run _ => ⟨[], some (.tooDeep run)⟩ : S8 → S8 → Expansion) run name).stop = none ↔
            False := by
        simp
      rw [expandRecursive, expandText_succeeds never, Expandable, List.eq_nil_iff_forall_not_mem]
  | succ levels ih =>
      rw [expandRecursive, Expandable]
      apply expandText_succeeds
      intro run name
      cases value name with
      | none => simp
      | some text => simp [ih]

/-- The program expands a text exactly when it is expandable with 127 levels. -/
theorem expand_succeeds (global env : Env) (path str : S8) :
    (expand global env path str).stop = none ↔ Expandable (lookup global env) 127 str :=
  (expand_refines global env path str).2.succeeds.trans (expandRecursive_succeeds _ _ _)

/-- An expandable text is written as the recursive expander writes it. -/
theorem expand_of_expandable {global env : Env} {str : S8}
    (expandable : Expandable (lookup global env) 127 str) (path : S8) :
    expand global env path str = ⟨(expandRecursive (lookup global env) 127 str).written, none⟩ := by
  have succeeds := (expandRecursive_succeeds _ _ _).mpr expandable
  rw [expand_eq]
  generalize expandRecursive (lookup global env) 127 str = expansion at succeeds
  obtain ⟨written, failure⟩ := expansion
  subst succeeds
  rfl

end UConfig
