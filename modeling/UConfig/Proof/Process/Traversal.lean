/-
This file proves which packages a process loads, how it marks them and in which order.
-/

import UConfig.Proof.Process.Universe

namespace UConfig

open GraphSearch

variable {proc : Processor} {roots : List PkgSpec}

/-- The universe without a depth limit. -/
abbrev PackageUniverse.graph (files : PackageUniverse proc roots) :
    Universe (packageGraph proc fun _ => true) roots :=
  files.world fun _ => true

/-- The marks of a finished machine are exactly the ones that the graph justifies. -/
theorem marks_exact (world : Universe (packageGraph proc fun _ => true) roots)
    {m : Machine} {state : State S8 PkgSpec Pkg} (represents : Represents m state)
    (runs : Runs (packageGraph proc fun _ => true) (start roots) state)
    (finished : state.frames = []) {realname : S8} {node : PkgNode}
    (found : m.pkgs.find realname = some node) :
    (node.pkg.flags.isDirect = true ↔ world.IsRoot realname) ∧
      (node.pkg.flags.isPublic = true ↔ world.StrongReachable realname) := by
  have known := represents.entry_of_find found
  have sound := (world.sound_runs runs).entries realname _ _ known
  constructor
  · constructor
    · exact sound.root
    · intro isRoot
      obtain ⟨request, member, target⟩ := isRoot
      obtain ⟨pkg, marks, visited, held⟩ := (roots_owed runs member).settled finished
      rw [target, known] at visited
      cases visited
      exact held.1
  · constructor
    · exact sound.strong
    · intro reachable
      obtain ⟨pkg, marks, visited, strong⟩ :=
        (world.strong_iff (fun _ => rfl) runs finished realname).mpr reachable
      rw [known] at visited
      cases visited
      exact strong

/-- A process that returns has listed every reachable package once with exactly its flags. -/
theorem process_traverses (unlimited : proc.Unlimited) (files : PackageUniverse proc roots)
    (fuel : Nat) (pkgs : Pkgs) (returned : process fuel proc roots = some (.ok pkgs)) :
    pkgs.Linked pkgs.head pkgs.list ∧ pkgs.list.Nodup ∧
    (∀ realname, realname ∈ pkgs.list ↔ files.graph.Reachable realname) ∧
    pkgs.list.length = pkgs.count ∧ pkgs.allPresent = true ∧
    ∀ realname ∈ pkgs.list, ∃ node, pkgs.find realname = some node ∧
      packageOf proc files.file realname = some node.pkg.unmarked ∧
      (node.pkg.flags.isDirect = true ↔ files.graph.IsRoot realname) ∧
      (node.pkg.flags.isPublic = true ↔ files.graph.StrongReachable realname) := by
  obtain ⟨m, state, _, runs, represents, finished, same⟩ :=
    process_returns unlimited.agrees returned .refl (represents_start roots)
  subst same
  obtain ⟨list, count⟩ := represents.list_eq finished
  have nodup := represents.tracked.nodup
  rw [State.unfinished, finished, List.filterMap_nil, List.nil_append] at nodup
  refine ⟨list ▸ represents.listed.linked, list ▸ nodup, fun realname => ?_, by rw [list, count],
    by rw [Pkgs.allPresent, list, count, beq_self_eq_true], fun realname member => ?_⟩
  · rw [list, represents.mem_order finished]
    exact files.graph.entered_iff (fun _ => rfl) runs finished realname
  · rw [list, represents.mem_order finished] at member
    obtain ⟨pkg, marks, known⟩ := member
    have sound := (files.graph.sound_runs runs).entries realname pkg marks known
    obtain ⟨node, found, isNode, _⟩ := represents.find_of_entry known
    exact ⟨node, found, isNode ▸ sound.node,
      marks_exact files.graph represents runs finished found⟩

/-- A diamond with a cycle, a self-requirement and a repeated entry. -/
def cyclicProcessor : Processor := memoryProcessor
  [(S "d/a.pc", pkgText (S "1") (S "b, b") (S "c")), (S "d/b.pc", pkgText (S "2") (S "d") (S "b")),
    (S "d/c.pc", pkgText (S "3") (S "d, a") []), (S "d/d.pc", pkgText (S "4") [] [])]

def cyclicNames : List S8 := [S "a", S "b", S "c", S "d"]

def cyclicUniverse : PackageUniverse cyclicProcessor [newPkgSpec (S "a")] :=
  .ofNames _ _ cyclicNames (by
    delta plainClosed packageOf mergeFile expandMerge mergeField expandField
    rw [expand_eq_recursive]
    decide +kernel)

/-- A cycle of packages is traversed once. -/
theorem process_traverses_cyclic : ∃ pkgs,
    process 40 cyclicProcessor [newPkgSpec (S "a")] = some (.ok pkgs) ∧
    pkgs.list = [S "a", S "b", S "c", S "d"] ∧
    ∀ realname, realname ∈ pkgs.list ↔ cyclicUniverse.graph.Reachable realname := by
  have returned : returnedValue Pkgs.list (process 40 cyclicProcessor [newPkgSpec (S "a")]) =
      some [S "a", S "b", S "c", S "d"] := by
    delta process processBody processTurn visit visitNew loadPkg expandMerge mergeField expandField
    rw [expand_eq_recursive]
    decide +kernel
  obtain ⟨pkgs, returned, list⟩ := returnedValue_eq_some _ returned
  have traversed := process_traverses ⟨rfl, rfl⟩ cyclicUniverse 40 pkgs returned
  exact ⟨pkgs, returned, list, traversed.2.2.1⟩

/-- In a sorted order a vertex stands before everything that it leads to. -/
theorem sorted_transGen {world : Universe (packageGraph proc fun _ => true) roots}
    {order : List S8} (sorted : world.Sorted order) {vertex other : S8}
    (path : Relation.TransGen world.Edge vertex other) {after : List S8}
    (suffix : vertex :: after <:+ order) : other ∈ after := by
  induction path with
  | single edge => exact sorted vertex after suffix _ edge
  | tail _ edge ih =>
      obtain ⟨before, behind, split⟩ := List.append_of_mem ih
      have inner : _ :: behind <:+ after := ⟨before, split.symm⟩
      have next := sorted _ behind (inner.trans ((List.suffix_cons vertex after).trans suffix)) _ edge
      rw [split]
      exact List.mem_append_right _ (List.mem_cons_of_mem _ next)

/-- A process that returns on an acyclic universe has listed every package strictly before
everything that it requires. -/
theorem process_sorts (unlimited : proc.Unlimited) (files : PackageUniverse proc roots)
    (acyclic : files.graph.Acyclic) (fuel : Nat) (pkgs : Pkgs)
    (returned : process fuel proc roots = some (.ok pkgs)) :
    pkgs.Linked pkgs.head pkgs.list ∧ pkgs.list.Nodup ∧
    ∀ before realname after, pkgs.list = before ++ realname :: after →
      ∀ other, Relation.TransGen files.graph.Edge realname other → other ∈ after := by
  obtain ⟨m, state, _, runs, represents, finished, same⟩ :=
    process_returns unlimited.agrees returned .refl (represents_start roots)
  subst same
  have list := (represents.list_eq finished).1
  have nodup := represents.tracked.nodup
  rw [State.unfinished, finished, List.filterMap_nil, List.nil_append] at nodup
  have ordering := Universe.ordering_runs acyclic (fun _ => rfl) runs
  refine ⟨list ▸ represents.listed.linked, list ▸ nodup, ?_⟩
  intro before realname after shape other path
  rw [list] at shape
  exact sorted_transGen ordering.sorted path ⟨before, shape.symm⟩

/-- A diamond whose last package is required in public and in private. -/
def diamondProcessor : Processor := memoryProcessor
  [(S "d/a.pc", pkgText (S "1") (S "b") (S "c")), (S "d/b.pc", pkgText (S "2") (S "d") []),
    (S "d/c.pc", pkgText (S "3") [] (S "d")), (S "d/d.pc", pkgText (S "4") [] [])]

def diamondNames : List S8 := [S "a", S "b", S "c", S "d"]

def diamondRoots : List PkgSpec := [newPkgSpec (S "d"), newPkgSpec (S "a")]

theorem diamond_closed : plainClosed diamondProcessor diamondRoots diamondNames = true := by
  delta plainClosed packageOf mergeFile expandMerge mergeField expandField
  rw [expand_eq_recursive]
  decide +kernel

theorem diamond_sorted : plainSorted diamondProcessor diamondNames = true := by
  delta plainSorted packageOf mergeFile expandMerge mergeField expandField
  rw [expand_eq_recursive]
  decide +kernel

/-- The lower package of a diamond comes last. -/
theorem process_sorts_diamond : ∃ pkgs,
    process 40 diamondProcessor diamondRoots = some (.ok pkgs) ∧
    pkgs.list = [S "a", S "b", S "c", S "d"] ∧
    ∀ before realname after, pkgs.list = before ++ realname :: after → ∀ other,
      Relation.TransGen (PackageUniverse.ofNames _ _ _ diamond_closed).graph.Edge realname other →
        other ∈ after := by
  have returned : returnedValue Pkgs.list (process 40 diamondProcessor diamondRoots) =
      some [S "a", S "b", S "c", S "d"] := by
    delta process processBody processTurn visit visitNew loadPkg expandMerge mergeField expandField
    rw [expand_eq_recursive]
    decide +kernel
  obtain ⟨pkgs, returned, list⟩ := returnedValue_eq_some _ returned
  have sorted := process_sorts ⟨rfl, rfl⟩ (.ofNames _ _ _ diamond_closed)
    (PackageUniverse.ofNames_acyclic diamond_closed diamond_sorted _) 40 pkgs returned
  exact ⟨pkgs, returned, list, sorted.2.2⟩

end UConfig
