/-
This file proves what a run prints that asks for flags.
-/

import UConfig.Proof.Main.Flags
import UConfig.Proof.Specs

namespace UConfig

/-- The settings print nothing but flags. -/
structure Settings.PrintsFlags (settings : Settings) : Prop where
  listing : settings.listing = .none
  noVariable : settings.variableName = none
  noVersions : settings.modversion = false

/-- The settings do not even print flags. -/
structure Settings.PrintsNothing (settings : Settings) : Prop extends settings.PrintsFlags where
  noCflags : settings.cflags = false
  noLibs : settings.libs = false

/-- What the operands load, or why they do not. -/
def Loads (proc : Processor) (args : List S8) (outcome : Except Stop Pkgs) : Prop :=
  match parseSpecs args none with
  | .error stop => outcome = .error stop
  | .ok specs => ∃ fuel, process fuel proc specs = some outcome

/-- Operands load in only one way. -/
theorem Loads.unique {proc : Processor} {args : List S8} {first second : Except Stop Pkgs}
    (loads : Loads proc args first) (loads' : Loads proc args second) : first = second := by
  rw [Loads] at loads loads'
  cases parsed : parseSpecs args none with
  | error stop =>
      rw [parsed] at loads loads'
      rw [loads, loads']
  | ok specs =>
      rw [parsed] at loads loads'
      obtain ⟨fuel, returned⟩ := loads
      obtain ⟨other, returned'⟩ := loads'
      exact (Loop.grows_run _ _).unique returned returned'

/-- Without a listing the report comes from what the operands load. -/
theorem reports_iff {platform : Platform} {conf : Config} {settings : Settings}
    (noListing : settings.listing = .none) {report : Report} :
    Reports platform conf settings report ↔
      ∃ outcome, Loads (settings.processor platform) settings.args outcome ∧
        report = processReport conf settings outcome := by
  rw [Reports]
  simp only [runSettings, noListing, Loads]
  cases parseSpecs settings.args none with
  | error stop =>
      constructor
      · rintro ⟨_, same⟩
        exact ⟨_, rfl, (Option.some.inj same).symm⟩
      · rintro ⟨_, rfl, rfl⟩
        exact ⟨0, rfl⟩
  | ok specs =>
      constructor
      · rintro ⟨fuel, returned⟩
        obtain ⟨outcome, processed, same⟩ := Option.bind_eq_some_iff.mp returned
        exact ⟨outcome, ⟨fuel, processed⟩, (Option.some.inj same).symm⟩
      · rintro ⟨outcome, ⟨fuel, processed⟩, rfl⟩
        exact ⟨fuel, Option.bind_eq_some_iff.mpr ⟨outcome, processed, rfl⟩⟩

/-- An answer of flags is complete when the versions pass and all flags are written. -/
theorem Settings.PrintsFlags.answer_ok_iff {settings : Settings} (prints : settings.PrintsFlags)
    {conf : Config} {packages : List Pkg} {text : S8} :
    answer conf settings packages = ⟨text, none⟩ ↔
      checkOverrides settings packages = .ok () ∧
        printArgs conf settings packages = ⟨text, none⟩ := by
  have nothing : ∀ expanded : Expanded, (Emission.print []).andThen expanded = expanded :=
    fun _ => rfl
  rw [answer, printModVersions, prints.noVersions, printVariables, prints.noVariable]
  cases checkOverrides settings packages with
  | error stop => simp
  | ok _ =>
      dsimp only
      rw [if_neg Bool.false_ne_true, nothing, nothing]
      simp

/-- A report of flags that has not halted gives all the arguments in one line. -/
theorem Settings.PrintsFlags.processReport_iff {settings : Settings}
    (prints : settings.PrintsFlags) {conf : Config} {outcome : Except Stop Pkgs} {text : S8} :
    processReport conf settings outcome = ⟨text, none⟩ ↔
      ∃ pkgs compiler linker, outcome = .ok pkgs ∧ pkgs.count ≠ 0 ∧
        checkOverrides settings pkgs.packages = .ok () ∧
        settings.compilerArgs conf pkgs.packages = .ok compiler ∧
        settings.linkerArgs conf pkgs.packages = .ok linker ∧
        text = settings.format.line (compiler ++ linker) ++ settings.lineEnd := by
  have report_iff : ∀ expanded : Expanded, expanded.report = ⟨text, none⟩ ↔
      expanded = ⟨text, none⟩ := by
    rintro ⟨written, stop⟩
    cases stop <;> simp [Expanded.report]
  cases outcome with
  | error stop => simp [processReport]
  | ok pkgs =>
      rw [processReport, answerPackages]
      by_cases empty : pkgs.count = 0
      · simp [empty]
      · rw [if_neg empty, report_iff, prints.answer_ok_iff, printArgs_ok_iff]
        constructor
        · rintro ⟨checked, compiler, linker, given⟩
          exact ⟨pkgs, compiler, linker, rfl, empty, checked, given⟩
        · rintro ⟨_, compiler, linker, same, _, checked, given⟩
          cases same
          exact ⟨checked, compiler, linker, given⟩

/-- A package that requires another one in private. -/
def chainPlatform : Platform where
  mapFile := memoryFiles
    [(S "d/a.pc", S "Name:\nDescription:\nVersion:\nRequires.private: b\nCflags: -Ia\nLibs: -la\n"),
      (S "d/b.pc", S "Name:\nDescription:\nVersion:\nCflags: -Ib\nLibs: -lb\n")]
  listing _ := []

end UConfig
