/-
This file proves which paths are printed as they are by a variable of their package.
-/

import UConfig.Program.Variable
import UConfig.Proof.Paths.Prefix
import UConfig.Proof.Process.Universe

namespace UConfig

open GraphSearch

/-- A loaded package binds its directory and its prefix in their encoded forms. -/
structure BindsPaths (proc : Processor) (p : Pkg) : Prop where
  pcfiledir : p.env.find (S "pcfiledir") = some (some ((dirname p.path).map pathEncode))
  pkgPrefix : proc.definePrefix = true → ∀ dir, p.path = pathBelow dir →
    p.env.find (S "prefix") = some (some (dir.map pathEncode))

/-- The prefix does not change the directory of the file. -/
theorem setPrefix_pcfiledir (p : Pkg) :
    (setPrefix p).env.find (S "pcfiledir") = p.env.find (S "pcfiledir") := by
  unfold setPrefix
  dsimp only
  split
  · exact (Env.find_assign ..).trans (if_neg (by decide))
  · rfl

/-- Loading a package binds its paths. -/
theorem loadPkg_bindsPaths {proc : Processor} {base pkg : Pkg} {name : S8}
    (loaded : loadPkg proc base name = .ok pkg) : BindsPaths proc pkg := by
  rw [loadPkg_eq] at loaded
  obtain ⟨file, _, merged⟩ := bind_eq_ok.mp loaded
  obtain ⟨newpkg, parsed, merged⟩ := bind_eq_ok.mp merged
  obtain ⟨path, _, _, env, _⟩ := expandMerge_ok merged
  have bound : newpkg.env.find (S "pcfiledir") =
      some (some ((dirname newpkg.path).map pathEncode)) := by
    obtain ⟨own, _, rfl, _⟩ := parseFile_ok parsed
    rw [← s8PathEncode_eq_map]
    exact (Env.find_assign ..).trans (if_pos rfl)
  have kept := setPrefix_kept newpkg
  cases definePrefix : proc.definePrefix with
  | false =>
      rw [definePrefix, if_neg Bool.false_ne_true] at path env
      constructor
      · rw [path, env, bound]
      · intro on
        rw [definePrefix] at on
        cases on
  | true =>
      rw [definePrefix, if_pos rfl] at path env
      constructor
      · rw [path, env, kept.1, setPrefix_pcfiledir, bound]
      · intro _ dir isBelow
        rw [env]
        exact setPrefix_find (kept.1.symm.trans (path.symm.trans isBelow))

/-- The packages of a process that returned bind their paths. -/
theorem process_bindsPaths {proc : Processor} {fuel : Nat} {roots : List PkgSpec} {pkgs : Pkgs}
    (returned : process fuel proc roots = some (.ok pkgs)) {realname : S8} {node : PkgNode}
    (found : pkgs.find realname = some node) : BindsPaths proc node.pkg := by
  have agrees : Follows.Agrees proc fun depth => proc.recursive && decide (depth < proc.maxDepth) :=
    fun _ _ => rfl
  obtain ⟨last, final, _, searched, represents, _, same⟩ :=
    process_returns agrees returned .refl (represents_start roots)
  subst same
  obtain ⟨request, _, loads⟩ := Runs.loads searched (represents.entry_of_find found)
  have binds := loadPkg_bindsPaths loads.1
  exact ⟨binds.pcfiledir, binds.pkgPrefix⟩

/-- The variable prints this path on a line of its own and no byte that encodes another one. -/
def PrintsPath (global : Env) (variableName : S8) (p : Pkg) (path : S8) : Prop :=
  printVariable global variableName p = ⟨path ++ S "\n", none⟩ ∧
    ∀ c ∈ (printVariable global variableName p).written, encodingByte c = false

/-- The path variables of the package print its directory and its prefix. -/
structure PathsPrinted (proc : Processor) (p : Pkg) : Prop where
  pcfiledir : PrintsPath proc.global (S "pcfiledir") p (dirname p.path)
  pkgPrefix : proc.definePrefix = true → ∀ dir, p.path = pathBelow dir →
    PrintsPath proc.global (S "prefix") p dir

/-- These bytes of a path are encoded. -/
def encodedBytes : S8 := S "\t\n\r $()"

/-- A byte is its own code when it is not encoded. -/
theorem pathEncode_eq_self : ∀ c, pathEncode c = c ↔ c ∉ encodedBytes :=
  forall_byte (by decide +kernel)

/-- An encoded path is the path itself when it has nothing to encode. -/
theorem map_pathEncode_eq_self (path : S8) :
    path.map pathEncode = path ↔ ∀ c ∈ path, c ∉ encodedBytes := by
  constructor
  · intro same c member
    rw [← pathEncode_eq_self]
    rw [← List.map_id path, List.map_map, List.map_inj_left] at same
    exact same c member
  · intro plain
    apply (List.map_congr_left fun c member => ?_).trans (List.map_id path)
    exact (pathEncode_eq_self c).mpr (plain c member)

/-- A bound path is printed in its encoded form. -/
theorem printVariable_encoded {global : Env} {variableName path : S8} {p : Pkg}
    (direct : p.flags.isDirect = true) (unbound : global.find variableName = none)
    (bound : p.env.find variableName = some (some (path.map pathEncode))) :
    printVariable global variableName p = ⟨path.map pathEncode ++ S "\n", none⟩ := by
  apply printVariable_plain direct _ (dollar_not_mem_encoded path)
  rw [lookup, unbound, bound]
  rfl

/-- A bound path is printed as it is exactly when it has nothing to encode. -/
theorem printsPath_iff {global : Env} {variableName path : S8} {p : Pkg}
    (direct : p.flags.isDirect = true) (unbound : global.find variableName = none)
    (bound : p.env.find variableName = some (some (path.map pathEncode)))
    (noEncoding : ∀ c ∈ path, encodingByte c = false) :
    PrintsPath global variableName p path ↔ ∀ c ∈ path, c ∉ encodedBytes := by
  rw [PrintsPath, printVariable_encoded direct unbound bound, ← map_pathEncode_eq_self]
  constructor
  · intro printed
    exact List.append_cancel_right (congrArg Emission.written printed.1)
  · intro same
    have newline : ∀ c ∈ S "\n", encodingByte c = false := by decide +kernel
    rw [same]
    refine ⟨rfl, ?_⟩
    intro c member
    cases List.mem_append.mp member with
    | inl inside => exact noEncoding c inside
    | inr last => exact newline c last

/-- A directory has only bytes of its path. -/
theorem mem_of_mem_dirname {path : S8} {c : UInt8} (member : c ∈ dirname path) : c ∈ path :=
  (List.rdropWhile_prefix (!pathsep ·) path).subset ((List.dropLast_subset _) member)

/-- The path variables of a loaded package print its paths exactly when its directory has nothing to
encode. -/
theorem process_prints_paths {proc : Processor} {fuel : Nat} {roots : List PkgSpec} {pkgs : Pkgs}
    (returned : process fuel proc roots = some (.ok pkgs)) {realname : S8} {node : PkgNode}
    (found : pkgs.find realname = some node) (direct : node.pkg.flags.isDirect = true)
    (noEncoding : ∀ c ∈ node.pkg.path, encodingByte c = false)
    (unbound : proc.global.find (S "pcfiledir") = none ∧ proc.global.find (S "prefix") = none) :
    PathsPrinted proc node.pkg ↔ ∀ c ∈ dirname node.pkg.path, c ∉ encodedBytes := by
  have binds := process_bindsPaths returned found
  have inside : ∀ c ∈ dirname node.pkg.path, encodingByte c = false :=
    fun c member => noEncoding c (mem_of_mem_dirname member)
  have printed := printsPath_iff direct unbound.1 binds.pcfiledir inside
  constructor
  · intro paths
    exact printed.mp paths.pcfiledir
  · intro plain
    refine ⟨printed.mpr plain, ?_⟩
    intro on dir isBelow
    have above : ∀ c ∈ dir, c ∈ dirname node.pkg.path := by
      intro c member
      rw [isBelow, dirname_pathBelow]
      exact List.mem_append_left _ member
    apply (printsPath_iff direct unbound.2 (binds.pkgPrefix on dir isBelow) ?_).mpr
    · intro c member
      exact plain c (above c member)
    · intro c member
      exact inside c (above c member)

/-- A package file in this directory. -/
def pathProcessor (dir : S8) : Processor :=
  { memoryProcessor [(dir ++ S "/x.pc", pkgText (S "1") [] [])] with search := [dir] }

/-- What is known of the package of a process that returned. -/
def foundPath (pkgs : Pkgs) : Option (Bool × S8) :=
  (pkgs.find (S "x")).map fun node => (node.pkg.flags.isDirect, node.pkg.path)

/-- What is found belongs to a package of the result. -/
theorem foundPath_eq_some {result : Option (Except Stop Pkgs)} {path : S8}
    (known : returnedValue foundPath result = some (some (true, path))) :
    ∃ pkgs node, result = some (.ok pkgs) ∧ pkgs.find (S "x") = some node ∧
      node.pkg.flags.isDirect = true ∧ node.pkg.path = path := by
  obtain ⟨pkgs, returned, found⟩ := returnedValue_eq_some _ known
  obtain ⟨node, isNode, same⟩ := Option.map_eq_some_iff.mp found
  exact ⟨pkgs, node, returned, isNode, congrArg Prod.fst same, congrArg Prod.snd same⟩

/-- A path without special bytes is printed as it is. -/
theorem process_prints_paths_usr : ∃ pkgs node,
    process 10 (pathProcessor (S "/usr/lib/pkgconfig")) [newPkgSpec (S "x")] = some (.ok pkgs) ∧
    pkgs.find (S "x") = some node ∧ PathsPrinted (pathProcessor (S "/usr/lib/pkgconfig")) node.pkg := by
  have known : returnedValue foundPath
      (process 10 (pathProcessor (S "/usr/lib/pkgconfig")) [newPkgSpec (S "x")]) =
        some (some (true, S "/usr/lib/pkgconfig/x.pc")) := by
    delta process processBody processTurn visit visitNew loadPkg expandMerge mergeField expandField
    rw [expand_eq_recursive]
    decide +kernel
  obtain ⟨pkgs, node, returned, found, direct, path⟩ := foundPath_eq_some known
  refine ⟨pkgs, node, returned, found, ?_⟩
  have noEncoding : ∀ c ∈ node.pkg.path, encodingByte c = false := by
    rw [path]
    decide +kernel
  apply (process_prints_paths returned found direct noEncoding ⟨rfl, rfl⟩).mpr
  rw [path]
  decide +kernel

/-- A space in the path of a package is printed as the byte that encodes it. -/
theorem process_prints_encoded : ¬ ∀ (proc : Processor) (fuel : Nat) (roots : List PkgSpec) (pkgs : Pkgs),
    process fuel proc roots = some (.ok pkgs) → ∀ realname node, pkgs.find realname = some node →
    node.pkg.flags.isDirect = true → (∀ c ∈ node.pkg.path, encodingByte c = false) →
    proc.global.find (S "pcfiledir") = none ∧ proc.global.find (S "prefix") = none →
    PathsPrinted proc node.pkg := by
  intro always
  have known : returnedValue foundPath
      (process 10 (pathProcessor (S "/my dir/lib/pkgconfig")) [newPkgSpec (S "x")]) =
        some (some (true, S "/my dir/lib/pkgconfig/x.pc")) := by
    delta process processBody processTurn visit visitNew loadPkg expandMerge mergeField expandField
    rw [expand_eq_recursive]
    decide +kernel
  obtain ⟨pkgs, node, returned, found, direct, path⟩ := foundPath_eq_some known
  have noEncoding : ∀ c ∈ node.pkg.path, encodingByte c = false := by
    rw [path]
    decide +kernel
  have paths := always _ _ _ _ returned _ _ found direct noEncoding ⟨rfl, rfl⟩
  have binds := process_bindsPaths returned found
  have printed := paths.pcfiledir.1
  rw [printVariable_encoded direct rfl binds.pcfiledir, path] at printed
  have same := List.append_cancel_right (congrArg Emission.written printed)
  revert same
  decide +kernel

end UConfig
