/-
This file proves which flags a run prints.
-/

import UConfig.Proof.Fields.FieldArgs
import UConfig.Proof.Fields.Framework
import UConfig.Proof.Main.Queries
import UConfig.Proof.Process.Packages

namespace UConfig

/-- The fields of the packages that are selected, one package after the other. -/
def fieldTexts (select : Pkg → List Field) (packages : List Pkg) : List FieldText :=
  packages.flatMap fun p => (select p).map fun field => ⟨p.realname, p.text field⟩

/-- Packages append the fields that are selected from them. -/
theorem foldlM_appendPackage (select : Pkg → List Field) (w : FieldWriter)
    (packages : List Pkg) :
    packages.foldlM (appendPackage select) w = appendFields w (fieldTexts select packages) := by
  induction packages generalizing w with
  | nil => rfl
  | cons p packages ih =>
      rw [List.foldlM_cons, fieldTexts, List.flatMap_cons, appendFields, List.foldlM_append,
        List.foldlM_map, ← appendPackage]
      exact congrArg _ (funext fun w => ih w)

namespace Settings

variable (conf : Config) (settings : Settings)

/-- The include paths that are not printed. -/
def hiddenIncludes : Excluded :=
  if settings.printSysInc then noneExcluded
  else sysExcluded (conf.sysIncPath.getD []) conf.delim (.inl rfl)

/-- The library paths that are not printed. -/
def hiddenLibs : Excluded :=
  if settings.printSysLib then noneExcluded
  else sysExcluded (conf.sysLibPath.getD []) conf.delim (.inr rfl)

/-- At first the hidden include paths are excluded. -/
theorem excludeIncludes_start :
    settings.excludeIncludes conf .empty = (settings.hiddenIncludes conf).start := by
  rw [excludeIncludes, hiddenIncludes]
  split
  · rfl
  · exact insertSysPath_start _ _ _

/-- At first the hidden library paths are excluded. -/
theorem excludeLibs_start :
    settings.excludeLibs conf .empty = (settings.hiddenLibs conf).start := by
  rw [excludeLibs, hiddenLibs]
  split
  · rfl
  · exact insertSysPath_start _ _ _

/-- The arguments for the compiler. -/
def compilerArgs (packages : List Pkg) : Except Stop (List S8) :=
  if settings.cflags then
    printedUnder (settings.hiddenIncludes conf) (fieldTexts settings.cflagsFields packages)
      settings.filterC
  else .ok []

/-- The arguments for the linker. -/
def linkerArgs (packages : List Pkg) : Except Stop (List S8) :=
  if settings.libs then
    printedUnder (settings.hiddenLibs conf) (fieldTexts settings.libsFields packages)
      settings.filterL
  else .ok []

end Settings

/-- The fields write what is printed of them under the filter. -/
theorem writeFields_eq (settings : Settings) (filter : Filter) {exclude : Args → Args}
    {excluded : Excluded} (starts : exclude .empty = excluded.start)
    (select : Pkg → List Field) (packages : List Pkg) (output : ArgOutput) :
    writeFields settings filter exclude select packages output =
      (printedUnder excluded (fieldTexts select packages) filter).map fun printed =>
        printed.foldl (writeArg settings.format) output := by
  rw [writeFields, newFieldWriter, foldlM_appendPackage, starts, printedUnder]
  cases appendFields ⟨excluded.start, filter⟩ (fieldTexts select packages) with
  | error stop => rfl
  | ok w => exact congrArg Except.ok (writeArgs_foldl settings.format w.args output)

/-- The compiler flags are written behind the output. -/
theorem writeCflags_eq (conf : Config) (settings : Settings) (packages : List Pkg)
    (output : ArgOutput) :
    writeCflags conf settings packages output =
      (settings.compilerArgs conf packages).map fun printed =>
        printed.foldl (writeArg settings.format) output := by
  rw [writeCflags, Settings.compilerArgs]
  split
  · exact writeFields_eq settings _ (settings.excludeIncludes_start conf) _ packages output
  · rfl

/-- The linker flags are written behind the output. -/
theorem writeLibs_eq (conf : Config) (settings : Settings) (packages : List Pkg)
    (output : ArgOutput) :
    writeLibs conf settings packages output =
      (settings.linkerArgs conf packages).map fun printed =>
        printed.foldl (writeArg settings.format) output := by
  rw [writeLibs, Settings.linkerArgs]
  split
  · exact writeFields_eq settings _ (settings.excludeLibs_start conf) _ packages output
  · rfl

/-- The line that ends the flags, when any have been asked for. -/
def Settings.lineEnd (settings : Settings) : S8 :=
  if settings.cflags || settings.libs then S "\n" else []

/-- The flags are the arguments for the compiler and then those for the linker. -/
theorem printArgs_ok_iff {conf : Config} {settings : Settings} {packages : List Pkg}
    {text : S8} :
    printArgs conf settings packages = ⟨text, none⟩ ↔
      ∃ compiler linker, settings.compilerArgs conf packages = .ok compiler ∧
        settings.linkerArgs conf packages = .ok linker ∧
        text = settings.format.line (compiler ++ linker) ++ settings.lineEnd := by
  rw [printArgs, writeCflags_eq]
  cases settings.compilerArgs conf packages with
  | error stop => simp [Except.map]
  | ok compiler =>
      dsimp only [Except.map]
      rw [writeLibs_eq]
      cases settings.linkerArgs conf packages with
      | error stop => simp [Except.map]
      | ok linker =>
          dsimp only [Except.map]
          constructor
          · intro same
            obtain ⟨rfl, _⟩ := Emission.mk.inj same
            refine ⟨compiler, linker, rfl, rfl, ?_⟩
            rw [← List.foldl_append, settings.format.foldl_writeArg]
            rfl
          · rintro ⟨_, _, same, same', rfl⟩
            cases same
            cases same'
            rw [← List.foldl_append, settings.format.foldl_writeArg]
            rfl

/-- A field of the package gives the argument. -/
def Pkg.Gives (p : Pkg) (field : Field) (arg : S8) : Prop :=
  ∃ items, (FieldText.mk p.realname (p.text field)).args = .ok items ∧ arg ∈ items

/-- What is printed under a filter comes from the fields and is not excluded. -/
theorem mem_printedUnder {excluded : Excluded} {fields : List FieldText} {f : Filter}
    {printed : List S8} (isPrinted : printedUnder excluded fields f = .ok printed) (arg : S8) :
    arg ∈ printed ↔ filterOk f arg = true ∧ arg ∉ excluded.args ∧
      ∃ text ∈ fields, ∃ items, text.args = .ok items ∧ arg ∈ items := by
  rw [printedUnder_args] at isPrinted
  cases given : fieldsArgs fields with
  | error stop =>
      rw [given] at isPrinted
      cases isPrinted
  | ok items =>
      rw [given] at isPrinted
      cases isPrinted
      rw [mem_keptBehind, List.mem_filter, mem_fieldsArgs given]
      tauto

/-- An argument that can be repeated is printed at most once. -/
theorem count_printedUnder {excluded : Excluded} {fields : List FieldText} {f : Filter}
    {printed : List S8} (isPrinted : printedUnder excluded fields f = .ok printed) {arg : S8}
    (repeatable : dedupable arg = true) : printed.count arg ≤ 1 := by
  rw [printedUnder_args] at isPrinted
  cases given : fieldsArgs fields with
  | error stop =>
      rw [given] at isPrinted
      cases isPrinted
  | ok items =>
      rw [given] at isPrinted
      cases isPrinted
      exact count_keptBehind excluded _ repeatable

/-- An argument of the fields is given by a field of some package. -/
theorem mem_fieldTexts {select : Pkg → List Field} {names : List S8} {package : S8 → Pkg}
    {arg : S8} :
    (∃ text ∈ fieldTexts select (names.map package), ∃ items, text.args = .ok items ∧
      arg ∈ items) ↔ ∃ realname ∈ names, ∃ field ∈ select (package realname),
        (package realname).Gives field arg := by
  simp only [fieldTexts, List.mem_flatMap, List.mem_map, exists_exists_and_eq_and, Pkg.Gives]
  constructor
  · rintro ⟨_, ⟨realname, member, field, selected, rfl⟩, given⟩
    exact ⟨realname, member, field, selected, given⟩
  · rintro ⟨realname, member, field, selected, given⟩
    exact ⟨_, ⟨realname, member, field, selected, rfl⟩, given⟩

namespace PackageUniverse

variable {proc : Processor} {roots : List PkgSpec} (files : PackageUniverse proc roots)

/-- A package of the universe gives the argument in a field that is taken from it. -/
def Provides (taken : S8 → Field → Prop) (realname arg : S8) : Prop :=
  ∃ p field, packageOf proc files.file realname = some p ∧ taken realname field ∧
    p.Gives field arg

/-- The printed arguments of one kind are exactly the provided ones that pass the filter and are
not hidden, and an argument that can be repeated is printed once. -/
structure Prints (taken : S8 → Field → Prop) (filter : Filter) (hidden : Excluded)
    (printed : List S8) : Prop where
  members : ∀ arg, arg ∈ printed ↔ filterOk filter arg = true ∧ arg ∉ hidden.args ∧
    ∃ realname, files.Provides taken realname arg
  once : ∀ arg, dedupable arg = true → printed.count arg ≤ 1

/-- A library with a name behind its option. -/
def IsLibrary (arg : S8) : Prop := startsWith arg (S "-l") = true ∧ 3 ≤ arg.length

/-- The fields that are taken are those that the queries select. -/
structure Selects (names : List S8) (package : S8 → Pkg) (select : Pkg → List Field)
    (taken : S8 → Field → Prop) : Prop where
  selected : ∀ realname ∈ names, ∀ field,
    field ∈ select (package realname) ↔ taken realname field
  inside : ∀ realname field, taken realname field → realname ∈ names

variable {files}

/-- What the universe provides is given by a selected field of a listed package. -/
theorem provides_iff {names : List S8} {package : S8 → Pkg} (orders : files.Orders names package)
    {select : Pkg → List Field} {taken : S8 → Field → Prop}
    (selects : Selects names package select taken) {realname arg : S8} :
    files.Provides taken realname arg ↔ realname ∈ names ∧
      ∃ field ∈ select (package realname), (package realname).Gives field arg := by
  constructor
  · rintro ⟨p, field, isPackage, isTaken, gives⟩
    have member := selects.inside realname field isTaken
    have same := (orders.lists realname member).package
    rw [isPackage] at same
    cases same
    exact ⟨member, field, (selects.selected realname member field).mpr isTaken, gives⟩
  · rintro ⟨member, field, isSelected, gives⟩
    exact ⟨_, field, (orders.lists realname member).package,
      (selects.selected realname member field).mp isSelected, gives⟩

/-- What the writer prints of the listed packages is what the universe provides. -/
theorem Orders.prints {names : List S8} {package : S8 → Pkg} (orders : files.Orders names package)
    {select : Pkg → List Field} {taken : S8 → Field → Prop}
    (selects : Selects names package select taken) {filter : Filter} {hidden : Excluded}
    {printed : List S8}
    (isPrinted : printedUnder hidden (fieldTexts select (names.map package)) filter =
      .ok printed) :
    files.Prints taken filter hidden printed where
  members arg := by
    simp only [mem_printedUnder isPrinted, mem_fieldTexts, provides_iff orders selects]
  once arg repeatable := count_printedUnder isPrinted repeatable

/-- A library can be repeated. -/
theorem IsLibrary.dedupable {arg : S8} (library : IsLibrary arg) : dedupable arg = true := by
  obtain ⟨starts, long⟩ := library
  rw [startsWith, List.isPrefixOf_iff_prefix] at starts
  obtain ⟨rest, rfl⟩ := starts
  have dash : (S "-l" ++ rest).head? = some '-'.toUInt8 := rfl
  have letter : (S "-l" ++ rest)[1]? = some 'l'.toUInt8 := rfl
  have notShort : ¬((S "-l" ++ rest).length < 3 ∨ (S "-l" ++ rest).head? ≠ some '-'.toUInt8) := by
    rw [dash]
    simp only [ne_eq, not_true_eq_false, or_false]
    omega
  rw [UConfig.dedupable, if_neg notShort, letter]
  split
  · rfl
  · decide

end PackageUniverse

end UConfig
