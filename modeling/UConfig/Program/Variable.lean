/-
This file gives what the main function prints for a variable of each package.
-/

import UConfig.Program.Process

namespace UConfig

/-- The loop over the packages prints one line for each package that was asked for directly.
A variable that has no value in its package prints nothing. -/
def printVariable (global : Env) (variableName : S8) (p : Pkg) : Expanded :=
  if p.flags.isDirect then
    match lookup global p.env variableName with
    | some value =>
        let expanded := expand global p.env p.path value
        match expanded.stop with
        | some _ => expanded
        | none => ⟨expanded.written ++ S "\n", none⟩
    | none => ⟨[], none⟩
  else ⟨[], none⟩

/-- A value without references is printed as it is. -/
theorem printVariable_plain {global : Env} {variableName value : S8} {p : Pkg}
    (direct : p.flags.isDirect = true) (found : lookup global p.env variableName = some value)
    (plain : '$'.toUInt8 ∉ value) :
    printVariable global variableName p = ⟨value ++ S "\n", none⟩ := by
  rw [printVariable, if_pos direct, found]
  dsimp only
  rw [expand_plain _ _ _ _ plain]

end UConfig
