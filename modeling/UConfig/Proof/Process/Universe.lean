/-
This file gives the universe of package files that a process can meet.
-/

import UConfig.Proof.Process.Simulation
import UConfig.Library.GraphOrder

namespace UConfig

open GraphSearch

/-- The package that a universe of files gives to a real name. -/
def packageOf (proc : Processor) (file : S8 → Option PkgFile) (realname : S8) : Option Pkg :=
  (file realname).bind fun f => (mergeFile proc (freshPkg realname) f).toOption

/-- All specifications with one real name that can occur resolve to the same file. -/
structure PackageUniverse (proc : Processor) (roots : List PkgSpec) where
  file : S8 → Option PkgFile
  resolves : ∀ spec, (spec ∈ roots ∨ ∃ realname p, packageOf proc file realname = some p ∧
      spec ∈ p.specsRequires ++ p.specsRequiresPrivate) →
    ∀ found, locateFile proc.mapFile proc.search spec.name = .ok found →
      ∃ f, file (pathToRealname spec.name) = some f ∧ found.path = f.path ∧
        found.contents = f.contents

/-- The files of some plain names. -/
def plainFiles (proc : Processor) (names : List S8) (realname : S8) : Option PkgFile :=
  if realname ∈ names then (locateFile proc.mapFile proc.search realname).toOption else none

/-- The names are not paths, and nothing outside of them is requested. -/
def plainClosed (proc : Processor) (roots : List PkgSpec) (names : List S8) : Bool :=
  names.all (!realnameIsPath ·) && roots.all (·.name ∈ names) &&
    names.all fun realname => ((packageOf proc (plainFiles proc names) realname).map fun p =>
      (p.specsRequires ++ p.specsRequiresPrivate).all (·.name ∈ names)).getD true

/-- Plain names that are closed under requirements make a universe. -/
def PackageUniverse.ofNames (proc : Processor) (roots : List PkgSpec) (names : List S8)
    (closed : plainClosed proc roots names = true) : PackageUniverse proc roots where
  file := plainFiles proc names
  resolves := by
    intro spec occurs found located
    simp only [plainClosed, Bool.and_eq_true, List.all_eq_true, decide_eq_true_eq] at closed
    obtain ⟨⟨plain, rootNames⟩, closed⟩ := closed
    have member : spec.name ∈ names := by
      cases occurs with
      | inl isRoot => exact rootNames spec isRoot
      | inr required =>
          obtain ⟨realname, p, isPackage, requested⟩ := required
          have known : realname ∈ names := by
            by_contra unknown
            rw [packageOf, plainFiles, if_neg unknown] at isPackage
            cases isPackage
          have inside := closed realname known
          rw [isPackage] at inside
          simpa using List.all_eq_true.mp inside spec requested
    have notPath : realnameIsPath spec.name = false := by simpa using plain spec.name member
    refine ⟨found, ?_, rfl, rfl⟩
    rw [pathToRealname, notPath, if_neg Bool.false_ne_true, plainFiles, if_pos member, located]
    rfl

/-- The universe of files is a universe of the package graph. -/
def PackageUniverse.world {proc : Processor} {roots : List PkgSpec}
    (files : PackageUniverse proc roots) (follow : Nat → Bool) :
    Universe (packageGraph proc follow) roots where
  node := packageOf proc files.file
  resolves := by
    intro spec occurs pkg loads
    have loaded := loads.1
    rw [loadPkg_eq] at loaded
    obtain ⟨found, located, merged⟩ := bind_eq_ok.mp loaded
    obtain ⟨f, isFile, path, contents⟩ := files.resolves spec occurs found located
    rw [mergeFile_congr proc _ path contents] at merged
    change packageOf proc files.file (pathToRealname spec.name) = some pkg
    rw [packageOf, isFile, Option.bind_some, merged]
    rfl

/-- Every name only requests names that stand behind it. -/
def plainSorted (proc : Processor) (names : List S8) : Bool :=
  names.all fun realname => ((packageOf proc (plainFiles proc names) realname).map fun p =>
    (p.specsRequires ++ p.specsRequiresPrivate).all fun spec =>
      decide (names.idxOf realname < names.idxOf (pathToRealname spec.name))).getD true

/-- Sorted names make a universe without cycles. -/
theorem PackageUniverse.ofNames_acyclic {proc : Processor} {roots : List PkgSpec}
    {names : List S8} (closed : plainClosed proc roots names = true)
    (sorted : plainSorted proc names = true) (follow : Nat → Bool) :
    ((PackageUniverse.ofNames proc roots names closed).world follow).Acyclic := by
  apply Universe.acyclic_of_rank names.idxOf
  intro realname other edge
  obtain ⟨p, isPackage, spec, requested, target⟩ := edge
  have isPackage : packageOf proc (plainFiles proc names) realname = some p := isPackage
  have known : realname ∈ names := by
    by_contra unknown
    rw [packageOf, plainFiles, if_neg unknown] at isPackage
    cases isPackage
  have inside := List.all_eq_true.mp sorted realname known
  rw [isPackage] at inside
  have rises := List.all_eq_true.mp inside spec requested
  rw [← target]
  exact of_decide_eq_true rises

/-- A file system in memory, as the tests of the program have it. -/
def memoryFiles (entries : List (S8 × S8)) : MapFile := fun path =>
  match entries.find? fun entry => entry.1 ++ [0] == path with
  | some entry => .ok entry.2
  | none => .notFound

/-- A package file with only a version and requirements. -/
def pkgText (version requires requiresPrivate : S8) : S8 :=
  S "Name:\nDescription:\nVersion: " ++ version ++ S "\nRequires: " ++ requires ++
    S "\nRequires.private: " ++ requiresPrivate ++ S "\n"

def memoryProcessor (entries : List (S8 × S8)) : Processor where
  mapFile := memoryFiles entries
  search := [S "d"]
  global := .empty
  maxDepth := defaultMaxDepth
  definePrefix := true
  recursive := true
  ignoreVersions := false

/-- What is read from the set when the process returns. -/
def returnedValue {Value : Type} (value : Pkgs → Value) :
    Option (Except Stop Pkgs) → Option Value
  | some (.ok pkgs) => some (value pkgs)
  | _ => none

/-- A value of the result belongs to a process that has succeeded. -/
theorem returnedValue_eq_some {Value : Type} (value : Pkgs → Value)
    {result : Option (Except Stop Pkgs)} {expected : Value}
    (returned : returnedValue value result = some expected) :
    ∃ pkgs, result = some (.ok pkgs) ∧ value pkgs = expected := by
  cases result with
  | none => cases returned
  | some outcome =>
      cases outcome with
      | error stop => cases returned
      | ok pkgs => exact ⟨pkgs, rfl, Option.some.inj returned⟩

/-- Recursion is on, and the depth limit is the default one. -/
structure Processor.Unlimited (proc : Processor) : Prop where
  recursive : proc.recursive = true
  maxDepth : proc.maxDepth = defaultMaxDepth

/-- No depth that fits on the stack reaches the default limit. -/
theorem Processor.Unlimited.agrees {proc : Processor} (unlimited : proc.Unlimited) :
    Follows.Agrees proc fun _ => true := by
  intro depth small
  have below : depth < proc.maxDepth := by
    rw [unlimited.maxDepth, defaultMaxDepth]
    omega
  rw [unlimited.recursive, decide_eq_true below]
  rfl

/-- The list of a finished machine is the order of its search. -/
theorem Represents.list_eq {m : Machine} {state : State S8 PkgSpec Pkg}
    (represents : Represents m state) (finished : state.frames = []) :
    m.pkgs.list = state.order ∧ state.order.length = m.pkgs.count := by
  have count := represents.count
  rw [State.unfinished, finished] at count
  simp only [List.filterMap_nil, List.length_nil, Nat.zero_add] at count
  exact ⟨represents.listed.list_eq (by omega), count.symm⟩

/-- In a finished search exactly the entered packages are in the order. -/
theorem Represents.mem_order {m : Machine} {state : State S8 PkgSpec Pkg}
    (represents : Represents m state) (finished : state.frames = []) (realname : S8) :
    realname ∈ state.order ↔ state.Entered realname := by
  rw [represents.tracked.entered, State.unfinished, finished]
  simp

end UConfig
