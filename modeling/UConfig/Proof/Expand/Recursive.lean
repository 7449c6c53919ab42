/-
This file gives the recursive expander that the loop with the stack implements.
-/

import UConfig.Program.ExpandLoop

namespace UConfig

/-- A reference at the depth limit remembers the bytes copied since the last cut of its text.
A text is cut at its start, after each reference and after each two dollars. -/
inductive ExpansionFailure where
  | undefined (name : S8)
  | tooDeep (run : S8)

/-- The text of an expansion, which a failure ends. -/
abbrev Expansion := Emission UInt8 ExpansionFailure

/-- The text behind a reference is no longer than before. -/
theorem referenceTail_length (s : S8) : (referenceTail s).length ≤ s.length := by
  have dropped := (List.dropWhile_sublist (· != '}'.toUInt8) (l := s)).length_le
  simp only [referenceTail, List.length_drop]
  omega

/-- The text is copied from left to right, and each reference is expanded where it stands.
The run is what has been copied since the last cut. -/
def expandText (refer : S8 → S8 → Expansion) (run : S8) : S8 → Expansion
  | [] => .print []
  | [c] => .print [c]
  | c :: d :: rest =>
      if c = '$'.toUInt8 ∧ d = '{'.toUInt8 then
        (refer run (referenceName rest)).andThen (expandText refer [] (referenceTail rest))
      else if c = '$'.toUInt8 ∧ d = '$'.toUInt8 then
        (Emission.print ['$'.toUInt8]).andThen (expandText refer [] rest)
      else (Emission.print [c]).andThen (expandText refer (run ++ [c]) (d :: rest))
termination_by s => s.length
decreasing_by
  · have := referenceTail_length rest
    simp only [List.length_cons]
    omega
  · simp only [List.length_cons]
    omega
  · simp

/-- The first argument is the number of variable values that may still be opened. -/
def expandRecursive (value : S8 → Option S8) : Nat → S8 → Expansion
  | 0, s => expandText (fun run _ => ⟨[], some (.tooDeep run)⟩) [] s
  | levels + 1, s =>
      expandText (fun _ name =>
        match value name with
        | none => ⟨[], some (.undefined name)⟩
        | some text => expandRecursive value levels text) [] s

end UConfig
