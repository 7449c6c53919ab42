/-
This file proves what the options that silence the program change besides its messages.
-/

import UConfig.Proof.Main.Contract
import UConfig.Proof.Main.Operands

namespace UConfig

/-- A silent run of the program beside the same run with messages. A silent run that fails may print
less, since a message on the output brings the rest of the answer with it. -/
structure Quieter (silent loud : Exit) : Prop where
  success : silent.success = loud.success
  returns : loud.success = true → silent = loud
  stdout : silent.stdout.flatten <+: loud.stdout.flatten
  stderr : silent = loud ∨ silent.stderr.flatten = []

/-- A run is as quiet as itself. -/
theorem Quieter.refl (exit : Exit) : Quieter exit exit :=
  ⟨rfl, fun _ => rfl, List.prefix_refl _, .inl rfl⟩

end UConfig
