/-
This file proves that a run depends on its command line only through the options and the tokens of
the operands.
-/

import UConfig.Proof.Main.Run
import UConfig.Proof.Options.Frame
import UConfig.Proof.Specs

namespace UConfig

/-- The operands are only read as the tokens of package specifications. -/
theorem runSettings_tokens (fuel : Nat) (platform : Platform) (conf : Config) (settings : Settings)
    {args args' : List S8} (sameTokens : args.flatMap argTokens = args'.flatMap argTokens) :
    runSettings fuel platform conf (settings.withArgs args) =
      runSettings fuel platform conf (settings.withArgs args') := by
  have parsed : parseSpecs (settings.withArgs args).args none =
      parseSpecs (settings.withArgs args').args none := by
    change parseSpecs args none = parseSpecs args' none
    rw [parseSpecs_tokens, parseSpecs_tokens, sameTokens]
  rw [runSettings, runSettings, parsed]
  rfl

/-- A program ends in the same way for operands with the same tokens. -/
theorem concludes_tokens {platform : Platform} {conf : Config} {result : Except Stop Exit}
    (effect : OptionEffect) {args args' : List S8}
    (sameTokens : args.flatMap argTokens = args'.flatMap argTokens) :
    Concludes platform conf result (effect.map (Settings.withArgs args) id) ↔
      Concludes platform conf result (effect.map (Settings.withArgs args') id) := by
  cases effect with
  | inr report => exact Iff.rfl
  | inl settings =>
      have same : ∀ fuel, runSettings fuel platform conf (settings.withArgs args) =
          runSettings fuel platform conf (settings.withArgs args') := fun fuel =>
        runSettings_tokens fuel platform conf settings sameTokens
      change (∃ report, (∃ fuel, runSettings fuel platform conf (settings.withArgs args) =
        some report) ∧ _) ↔ _
      simp only [same]
      exact Iff.rfl

/-- Two command lines with the same options and the same tokens run alike. Their operands may stand
anywhere between the options, values may be attached or not, and operands may be split or joined
at spaces and commas. -/
theorem commandLine_order {args args' : List S8} {items items' : List Item}
    (spells : Spells args items) (spells' : Spells args' items')
    (sameOptions : options items = options items')
    (sameTokens : (operands items).flatMap argTokens = (operands items').flatMap argTokens)
    (platform : Platform) (conf : Config) :
    Finishes platform (conf.withArgs args) = Finishes platform (conf.withArgs args') := by
  funext result
  rw [eq_iff_iff, finishes_withArgs spells, finishes_withArgs spells', followItems_split,
    followItems_split conf _ items', sameOptions]
  exact concludes_tokens _ sameTokens

/-- Operands between, before and behind the options run alike. -/
theorem commandLine_order_mixed :
    Finishes emptyPlatform
        (plainConfig.withArgs [S "a", S "--libs", S "b >= 2", S "--variable=v"]) =
      Finishes emptyPlatform (plainConfig.withArgs
        [S "--libs", S "--variable", S "v", S "--", S "a,b", S ">=", S "2"]) := by
  have libs : needsValue (S "-libs") = false := by decide +kernel
  have variableName : needsValue (S "-variable") = true := by decide +kernel
  have first : Spells [S "a", S "--libs", S "b >= 2", S "--variable=v"]
      [.operand (S "a"), .option (S "-libs") none, .operand (S "b >= 2"),
        .option (S "-variable") (some (S "v"))] :=
    .operand (by decide) (.flag (by decide) (by decide) (by decide) libs
      (.operand (by decide) (@Spells.attached (S "-variable") (S "v") [] [] (by decide) .nil)))
  have second : Spells [S "--libs", S "--variable", S "v", S "--", S "a,b", S ">=", S "2"]
      (.option (S "-libs") none :: .option (S "-variable") (some (S "v")) ::
        [S "a,b", S ">=", S "2"].map .operand) :=
    .flag (by decide) (by decide) (by decide) libs
      (.detached (S "v") (by decide) variableName (.dashes _))
  exact commandLine_order first second rfl (by decide +kernel) emptyPlatform plainConfig

end UConfig
