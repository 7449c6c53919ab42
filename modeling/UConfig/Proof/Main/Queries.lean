/-
This file proves what the queries print that only look at the named packages.
-/

import UConfig.Proof.Main.Returns
import UConfig.Proof.Options.Frame
import UConfig.Proof.Process.Flat

namespace UConfig

/-- The packages of a set that has been described are those that were loaded. -/
theorem Pkgs.Describes.packages {pkgs : Pkgs} {loaded : Loaded} (describes : pkgs.Describes loaded) :
    pkgs.packages = loaded.map fun entry => entry.2.mark := by
  rw [Pkgs.packages, describes.names]
  simp only [describes.found]
  exact filterMap_lookup Pkg.mark describes.distinct

/-- Settings lead to only one report. -/
theorem Reports.unique {platform : Platform} {conf : Config} {settings : Settings}
    {first second : Report} (reports : Reports platform conf settings first)
    (reports' : Reports platform conf settings second) : first = second := by
  obtain ⟨fuel, returned⟩ := reports
  obtain ⟨other, returned'⟩ := reports'
  exact (grows_runSettings platform conf settings).unique returned returned'

def listOptions : List OptionName := [.listAll, .listPackageNames]

def argOptions : List OptionName :=
  [.cflags, .cflagsOnlyI, .cflagsOnlyOther, .libs, .libsOnlyL, .libsOnlyl, .libsOnlyOther]

/-- What a run prints besides the versions of its packages. -/
def Settings.answers (settings : Settings) : ListKind × Option S8 × Bool × Bool :=
  (settings.listing, settings.variableName, settings.cflags, settings.libs)

def answerOptions : List OptionName := .variableName :: listOptions ++ argOptions

/-- Only these options ask for an answer. -/
theorem answers_changedBy : ChangedBy Settings.answers answerOptions where
  operands _ _ := rfl
  others conf settings option text other := by
    cases option <;> first | rfl | exact absurd (by decide) other | simp [Settings.answers]

/-- Only one option asks for the versions. -/
theorem modversion_changedBy : ChangedBy Settings.modversion [.modversion] where
  operands _ _ := rfl
  others conf settings option text other := by
    cases option <;> first | rfl | exact absurd (by decide) other | simp

/-- A silent run that fails before it prints leaves nothing. -/
theorem Exit.Shows.silent {exit : Exit} {settings : Settings} {halt : Halt}
    (shows : exit.Shows settings.errors ⟨[], some halt⟩) (silent : settings.silent = true)
    (ordinary : ∀ stop, halt = .stop stop → stop.Ordinary) :
    exit.success = false ∧ exit.stdout.flatten = [] ∧ exit.stderr.flatten = [] := by
  have errors : settings.errors = .silent := by rw [Settings.errors, silent]; rfl
  rw [errors] at shows
  have quiet : halt.errors .silent = .silent := by
    cases halt with
    | usage error => rfl
    | stop stop =>
        cases stop with
        | fail failure | fault => rfl
        | outOfMemory => exact absurd rfl (ordinary _ rfl).inMemory
  refine ⟨shows.success, ?_, ?_⟩
  · rw [shows.stdout]
    simp only [Report.stdout, quiet]
    exact List.take_nil
  · rw [shows.stderr]
    simp only [Report.stderr, quiet]

end UConfig
