/-
This file proves when a process with a depth limit has loaded exactly the short chains.
-/

import UConfig.Proof.Process.Universe
import UConfig.Library.GraphDepth

namespace UConfig

open GraphSearch

variable {proc : Processor} {roots : List PkgSpec}

/-- The universe as a process with a depth limit searches it. -/
abbrev PackageUniverse.limited (files : PackageUniverse proc roots) :
    Universe (packageGraph proc fun depth => decide (depth < proc.maxDepth)) roots :=
  files.world fun depth => decide (depth < proc.maxDepth)

/-- With a limit the search follows requirements above it. -/
theorem limited_agrees (recursive : proc.recursive = true) :
    Follows.Agrees proc fun depth => decide (depth < proc.maxDepth) := by
  intro depth _
  rw [recursive]
  rfl

/-- Some machine of the run visits a specification of the package. -/
def Visited (proc : Processor) (roots : List PkgSpec) (realname : S8) : Prop :=
  ∃ m spec depth, Loop.Runs (processBody proc) (processStart roots) m ∧ m.Visits spec depth ∧
    pathToRealname spec.name = realname

/-- A run visits every package that its search enters. -/
theorem visited_step {follow : Nat → Bool} {m : Machine} {state next : State S8 PkgSpec Pkg}
    (runs : Loop.Runs (processBody proc) (processStart roots) m) (represents : Represents m state)
    (step : Step (packageGraph proc follow) state next)
    (visited : ∀ realname, state.Entered realname → Visited proc roots realname) (realname : S8)
    (entered : next.Entered realname) : Visited proc roots realname := by
  cases step.visits_of_entered entered with
  | inl before => exact visited realname before
  | inr now =>
      obtain ⟨spec, depth, visits, target⟩ := now
      exact ⟨m, spec, depth, runs, (represents.visits_iff _ _).mpr visits, target⟩

/-- Some machine of the run loads the package at the depth limit. -/
def CutOff (proc : Processor) (roots : List PkgSpec) (realname : S8) : Prop :=
  ∃ m spec, Loop.Runs (processBody proc) (processStart roots) m ∧
    m.Visits spec proc.maxDepth ∧ m.pkgs.find (pathToRealname spec.name) = none ∧
    pathToRealname spec.name = realname

/-- Every package that is cut off although a shorter chain leads to it has all its
requirements visited anyway. -/
def CutsVisited (files : PackageUniverse proc roots) : Prop :=
  ∀ realname, CutOff proc roots realname →
    (∃ count < proc.maxDepth, files.limited.Chain count realname) →
    ∀ other, files.limited.Edge realname other → Visited proc roots other

/-- No package is cut off while a shorter chain leads to it. -/
def CutsDeep (files : PackageUniverse proc roots) : Prop :=
  ∀ realname, CutOff proc roots realname →
    ¬ ∃ count < proc.maxDepth, files.limited.Chain count realname

/-- The loaded packages are the ends of the chains that the limit allows. -/
def LoadsChains (files : PackageUniverse proc roots) (pkgs : Pkgs) : Prop :=
  ∀ realname, (∃ node, pkgs.find realname = some node) ↔
    files.limited.Within proc.maxDepth realname

/-- Along a run the search is sound and shallow, and it only misses what is cut off. -/
structure LimitedSearch (files : PackageUniverse proc roots) (m : Machine)
    (state : State S8 PkgSpec Pkg) : Prop where
  represents : Represents m state
  sound : files.limited.Sound state
  shallow : files.limited.Shallow proc.maxDepth state
  covers : Universe.CutCovers (packageGraph proc fun depth => decide (depth < proc.maxDepth))
    (CutOff proc roots) state
  visited : ∀ realname, state.Entered realname → Visited proc roots realname

/-- Every machine that is reached represents a limited search. -/
theorem limited_runs (recursive : proc.recursive = true) (positive : 0 < proc.maxDepth)
    (files : PackageUniverse proc roots) {m : Machine}
    (runs : Loop.Runs (processBody proc) (processStart roots) m) :
    ∃ state, LimitedSearch files m state := by
  induction runs with
  | refl =>
      refine ⟨start roots, represents_start roots, files.limited.sound_start,
        files.limited.shallow_start positive, ?_, ?_⟩
      · intro realname pkg marks known
        cases known
      · intro realname entered
        obtain ⟨pkg, marks, known⟩ := entered
        cases known
  | tail runs turn ih =>
      obtain ⟨state, search⟩ := ih
      obtain ⟨state', step, represents'⟩ :=
        represents_turn (limited_agrees recursive) search.represents turn
      refine ⟨state', represents', files.limited.sound_step search.sound step,
        Universe.shallow_step (fun depth follows => of_decide_eq_true follows) search.sound
          search.shallow step, ?_, visited_step runs search.represents step search.visited⟩
      · refine Universe.cutCovers_step (fun depth => decide_eq_true_iff) search.shallow ?_
          search.covers step
        intro spec visits absent
        refine ⟨_, spec, runs, (search.represents.visits_iff _ _).mpr visits, ?_, rfl⟩
        apply Option.eq_none_iff_forall_ne_some.mpr
        intro node found
        exact absent ((search.represents.entered_iff _).mpr ⟨node, found⟩)

/-- A package that is visited in a run that returns has entered at its end. -/
theorem entered_of_visited (recursive : proc.recursive = true) {fuel : Nat} {pkgs : Pkgs}
    (returned : process fuel proc roots = some (.ok pkgs)) {realname : S8}
    (visited : Visited proc roots realname) : ∃ node, pkgs.find realname = some node := by
  obtain ⟨m, spec, depth, runs, visits, rfl⟩ := visited
  obtain ⟨state, _, represents⟩ :=
    represents_runs (limited_agrees recursive) (represents_start roots) runs
  obtain ⟨last, final, _, rest, represents', finished, same⟩ :=
    process_returns (limited_agrees recursive) returned runs represents
  have visits := (represents.visits_iff _ _).mp visits
  have entered : final.Entered (pathToRealname spec.name) := by
    cases Relation.ReflTransGen.cases_head rest with
    | inl unmoved =>
        obtain ⟨frame, below, later, frames, _⟩ := visits
        rw [unmoved, finished] at frames
        cases frames
    | inr more =>
        obtain ⟨next, step, rest⟩ := more
        exact Runs.entered rest (step.enters visits)
  rw [represents'.entered_iff, same] at entered
  exact entered

/-- The loaded packages are the ends of the short chains exactly when every cut is made up for. -/
theorem loadsChains_iff (recursive : proc.recursive = true) (positive : 0 < proc.maxDepth)
    (files : PackageUniverse proc roots) (fuel : Nat) (pkgs : Pkgs)
    (returned : process fuel proc roots = some (.ok pkgs)) :
    LoadsChains files pkgs ↔ CutsVisited files := by
  obtain ⟨last, whole, leaves⟩ := Loop.ends_of_run returned
  obtain ⟨state, search⟩ := limited_runs recursive positive files whole
  obtain ⟨finished, same⟩ :=
    represents_return (limited_agrees recursive) search.represents leaves
  have loaded : ∀ realname, (∃ node, pkgs.find realname = some node) ↔ state.Entered realname := by
    intro realname
    rw [search.represents.entered_iff, same]
  constructor
  · intro same' realname _ short other edge
    obtain ⟨count, below, chain⟩ := short
    have within : files.limited.Within proc.maxDepth other := ⟨count + 1, below, chain.tail edge⟩
    exact search.visited other ((loaded other).mp ((same' other).mpr within))
  · intro harmless realname
    rw [loaded]
    constructor
    · exact search.shallow.entries realname
    · apply Universe.entered_of_within search.sound ?_ search.covers finished
      · intro vertex cut short other edge
        rw [← loaded]
        exact entered_of_visited recursive returned (harmless vertex cut short other edge)
      · intro request isRoot
        obtain ⟨final, searched, represents⟩ :=
          represents_runs (limited_agrees recursive) (represents_start roots) whole
        obtain ⟨pkg, marks, known, _⟩ := (roots_owed searched isRoot).settled
          (represents_return (limited_agrees recursive) represents leaves).1
        rw [search.represents.entered_iff, ← represents.entered_iff]
        exact ⟨pkg, marks, known⟩

/-- The loaded packages are the ends of the short chains when no cut is too early, and exactly when
every cut that is too early is made up for. -/
theorem process_limits (recursive : proc.recursive = true) (positive : 0 < proc.maxDepth)
    (files : PackageUniverse proc roots) (fuel : Nat) (pkgs : Pkgs)
    (returned : process fuel proc roots = some (.ok pkgs)) :
    (CutsDeep files → LoadsChains files pkgs) ∧ (LoadsChains files pkgs ↔ CutsVisited files) := by
  have iff_visited := loadsChains_iff recursive positive files fuel pkgs returned
  refine ⟨?_, iff_visited⟩
  intro deep
  apply iff_visited.mpr
  intro realname cut short
  exact absurd short (deep realname cut)

/-- A package that is first met at the limit and later met again by a shorter chain. -/
def depthProcessor : Processor := { memoryProcessor
  [(S "d/a.pc", pkgText (S "1") (S "x, b") []), (S "d/b.pc", pkgText (S "1") (S "x") []),
    (S "d/x.pc", pkgText (S "1") (S "y") []), (S "d/y.pc", pkgText (S "1") [] [])] with
  maxDepth := 3 }

def depthNames : List S8 := [S "a", S "b", S "x", S "y"]

theorem depth_closed : plainClosed depthProcessor [newPkgSpec (S "a")] depthNames = true := by
  delta plainClosed packageOf mergeFile expandMerge mergeField expandField
  rw [expand_eq_recursive]
  decide +kernel

def depthUniverse : PackageUniverse depthProcessor [newPkgSpec (S "a")] :=
  .ofNames _ _ depthNames depth_closed

/-- An edge is found by looking at the requirements of its package. -/
theorem limited_edge {files : PackageUniverse proc roots} {realname other : S8}
    (required : (packageOf proc files.file realname).any (fun p =>
      (p.specsRequires ++ p.specsRequiresPrivate).any
        fun spec => pathToRealname spec.name == other) = true) :
    files.limited.Edge realname other := by
  cases isPackage : packageOf proc files.file realname with
  | none =>
      rw [isPackage] at required
      cases required
  | some p =>
      rw [isPackage] at required
      obtain ⟨spec, member, target⟩ := List.any_eq_true.mp required
      exact ⟨p, isPackage, spec, member, eq_of_beq target⟩

theorem depth_within : depthUniverse.limited.Within depthProcessor.maxDepth (S "y") := by
  have first : depthUniverse.limited.Edge (S "a") (S "x") := by
    apply limited_edge
    delta packageOf mergeFile expandMerge mergeField expandField
    rw [expand_eq_recursive]
    decide +kernel
  have second : depthUniverse.limited.Edge (S "x") (S "y") := by
    apply limited_edge
    delta packageOf mergeFile expandMerge mergeField expandField
    rw [expand_eq_recursive]
    decide +kernel
  have root : depthUniverse.limited.Chain 1 (S "a") :=
    .root (List.mem_singleton_self (newPkgSpec (S "a")))
  exact ⟨3, Nat.le_refl 3, (root.tail first).tail second⟩

theorem depth_returned : ∃ pkgs,
    process 30 depthProcessor [newPkgSpec (S "a")] = some (.ok pkgs) ∧
    (pkgs.find (S "y")).isNone = true := by
  apply returnedValue_eq_some (fun pkgs => (pkgs.find (S "y")).isNone)
  delta process processBody processTurn visit visitNew loadPkg expandMerge mergeField expandField
  rw [expand_eq_recursive]
  decide +kernel

/-- A search that first comes to a package at the limit misses what is behind it. -/
theorem process_limits_missed : ∃ pkgs,
    process 30 depthProcessor [newPkgSpec (S "a")] = some (.ok pkgs) ∧
    ¬ CutsVisited depthUniverse := by
  obtain ⟨pkgs, returned, absent⟩ := depth_returned
  refine ⟨pkgs, returned, fun harmless => ?_⟩
  have loaded := (process_limits rfl (by decide) depthUniverse 30 pkgs returned).2.mpr harmless
  obtain ⟨node, found⟩ := (loaded (S "y")).mpr depth_within
  rw [found] at absent
  cases absent

/-- A process with a depth limit can miss the end of a short chain. -/
theorem process_misses_chain : ¬ ∀ (proc : Processor) (roots : List PkgSpec)
    (files : PackageUniverse proc roots), proc.recursive = true → 1 ≤ proc.maxDepth →
    proc.maxDepth < 1000 → ∀ fuel pkgs, process fuel proc roots = some (.ok pkgs) →
      LoadsChains files pkgs := by
  intro always
  obtain ⟨pkgs, returned, absent⟩ := depth_returned
  obtain ⟨node, found⟩ := (always depthProcessor _ depthUniverse rfl (by decide) (by decide) 30 pkgs
    returned (S "y")).mpr depth_within
  rw [found] at absent
  cases absent

end UConfig
