/-
This file proves that every process ends within its stack, which is large enough for any 127
packages.
-/

import UConfig.Proof.Process.Depth
import UConfig.Library.GraphStack

namespace UConfig

open GraphSearch

/-- The depth limit of the program is the one of the graph at every depth. -/
def Processor.follow (proc : Processor) (depth : Nat) : Bool :=
  proc.recursive && decide (depth < proc.maxDepth)

/-- The processor follows what its own options say. -/
theorem Processor.follow_agrees (proc : Processor) : Follows.Agrees proc proc.follow :=
  fun _ _ => rfl

/-- The set holds every package that the roots require, directly or not. -/
def PackageSet (proc : Processor) (roots : List PkgSpec) (packages : List S8) : Prop :=
  ∀ spec, (packageGraph proc proc.follow).Requested roots spec → pathToRealname spec.name ∈ packages

variable {proc : Processor} {roots : List PkgSpec}

/-- The search goes along with a run of the machine, and it only enters what the run visits. -/
structure StackSearch (proc : Processor) (roots : List PkgSpec) (m : Machine)
    (state : State S8 PkgSpec Pkg) : Prop where
  runs : Loop.Runs (processBody proc) (processStart roots) m
  searched : Runs (packageGraph proc proc.follow) (start roots) state
  represents : Represents m state
  visited : ∀ realname, state.Entered realname → Visited proc roots realname

/-- The machine and the search start together. -/
theorem stackSearch_start (proc : Processor) (roots : List PkgSpec) :
    StackSearch proc roots (processStart roots) (start roots) where
  runs := .refl
  searched := .refl
  represents := represents_start roots
  visited := by
    intro realname entered
    obtain ⟨p, marks, known⟩ := entered
    cases known

/-- A turn of the machine is a step of the search. -/
theorem StackSearch.next {m m' : Machine} {state next : State S8 PkgSpec Pkg}
    (search : StackSearch proc roots m state) (turn : processBody proc m = .inl m')
    (step : Step (packageGraph proc proc.follow) state next) (represents : Represents m' next) :
    StackSearch proc roots m' next where
  runs := search.runs.tail turn
  searched := search.searched.tail step
  represents := represents
  visited := visited_step search.runs search.represents step search.visited

/-- The search never has more than 256 frames. -/
theorem Represents.length_le {m : Machine} {state : State S8 PkgSpec Pkg}
    (represents : Represents m state) : state.frames.length ≤ 256 := by
  obtain ⟨states, onStack, frames⟩ := represents.onStack
  rw [frames, List.length_map]
  exact onStack.holds.length_le

/-- The entered packages are distinct and visited. -/
theorem StackSearch.names {m : Machine} {state : State S8 PkgSpec Pkg}
    (search : StackSearch proc roots m state) :
    (state.unfinished ++ state.order).Nodup ∧
      (state.unfinished ++ state.order).length = state.size ∧
      ∀ realname ∈ state.unfinished ++ state.order,
        state.Entered realname ∧ Visited proc roots realname := by
  have tracked := search.represents.tracked
  refine ⟨tracked.nodup, List.length_append, fun realname member => ?_⟩
  have entered := (tracked.entered realname).mpr (List.mem_append.mp member)
  exact ⟨entered, search.visited realname entered⟩

/-- The stack is only full when 128 packages have been visited. -/
theorem StackSearch.full {m : Machine} {state : State S8 PkgSpec Pkg}
    (search : StackSearch proc roots m state) {tok : S8}
    (stops : TurnStops state (.fail (.maxRecursionOn tok))) :
    ∃ packages : List S8, packages.Nodup ∧ 128 ≤ packages.length ∧
      ∀ realname ∈ packages, Visited proc roots realname := by
  obtain ⟨nodup, length, visited⟩ := search.names
  have balanced := search.searched.balanced
  cases stops with
  | ordinary isOrdinary => exact absurd rfl (isOrdinary.notFull tok)
  | met tok strong full =>
      have fits := balanced.length_le search.represents.tracked strong
      exact ⟨_, nodup, by omega, fun realname member => (visited realname member).2⟩
  | @loaded frame rest entry order request later tok isNext unknown full =>
      have fits := balanced.frames
      dsimp only at fits
      refine ⟨pathToRealname request.name :: _, List.nodup_cons.mpr ⟨?_, nodup⟩, ?_, ?_⟩
      · intro member
        obtain ⟨p, marks, known⟩ := (visited _ member).1
        dsimp only at known
        rw [unknown] at known
        cases known
      · rw [List.length_cons, length]
        omega
      · intro realname member
        rcases List.mem_cons.mp member with rfl | isEntered
        · have visits : (⟨frame :: rest, entry, order⟩ : State S8 PkgSpec Pkg).Visits request
              (frame.depth + 1) := ⟨frame, rest, later, rfl, isNext, rfl⟩
          exact ⟨m, request, _, search.runs, (search.represents.visits_iff _ _).mpr visits, rfl⟩
        · exact (visited realname isEntered).2

/-- What a process that ends says about its stack. -/
structure StackResult (proc : Processor) (roots : List PkgSpec) (result : Except Stop Pkgs) :
    Prop where
  noFault : result ≠ .error .fault
  full : ∀ tok, result = .error (.fail (.maxRecursionOn tok)) →
    ∃ packages : List S8, packages.Nodup ∧ 128 ≤ packages.length ∧
      ∀ realname ∈ packages, Visited proc roots realname

/-- The loop ends from every machine of a run, because no stack gets larger than its array. -/
theorem StackSearch.ends {m : Machine} {state : State S8 PkgSpec Pkg}
    (search : StackSearch proc roots m state) :
    ∃ result, Loop.Ends (processBody proc) m result ∧ StackResult proc roots result := by
  induction state using (wellFounded_step (packageGraph proc proc.follow) 256).induction
    generalizing m with
  | h state ih =>
      rcases processTurn_cases proc.follow_agrees search.represents with
        ⟨m', next, turn, step, represents⟩ | ⟨_, returns⟩ | ⟨stop, stops, why⟩
      · have turn : processBody proc m = .inl m' := by rw [processBody, turn]
        obtain ⟨result, ends, isResult⟩ :=
          ih next ⟨step, search.represents.length_le⟩ (search.next turn step represents)
        exact ⟨result, ends.after (.single turn), isResult⟩
      · have leaves : processBody proc m = .inr (.ok m.pkgs) := by rw [processBody, returns]
        exact ⟨.ok m.pkgs, ⟨m, .refl, leaves⟩, fun fault => (by cases fault),
          fun _ full => (by cases full)⟩
      · have leaves : processBody proc m = .inr (.error stop) := by rw [processBody, stops]
        refine ⟨.error stop, ⟨m, .refl, leaves⟩, ?_, ?_⟩
        · intro fault
          cases fault
          cases why with
          | ordinary isOrdinary => exact isOrdinary.noFault rfl
        · intro tok full
          cases full
          exact search.full why

/-- A process only visits packages that its roots require. -/
theorem PackageSet.visited {packages : List S8} (set : PackageSet proc roots packages)
    {realname : S8} (visited : Visited proc roots realname) : realname ∈ packages := by
  obtain ⟨m, spec, depth, runs, visits, rfl⟩ := visited
  obtain ⟨state, searched, represents⟩ :=
    represents_runs proc.follow_agrees (represents_start roots) runs
  obtain ⟨frame, rest, later, frames, isNext, _⟩ := (represents.visits_iff _ _).mp visits
  apply set
  refine searched.expected.pending frame ?_ spec ?_
  · rw [frames]
    exact List.mem_cons_self
  · rw [isNext]
    exact List.mem_cons_self

/-- Every process ends without an access outside of its stack, and it only runs out of its stack
when it has visited 128 packages. -/
theorem process_within_stack (proc : Processor) (roots : List PkgSpec) :
    ∃ fuel result, process fuel proc roots = some result ∧ result ≠ .error .fault ∧
      (∀ tok, result = .error (.fail (.maxRecursionOn tok)) →
        ∃ packages : List S8, packages.Nodup ∧ 128 ≤ packages.length ∧
          ∀ realname ∈ packages, Visited proc roots realname) ∧
      ∀ packages, PackageSet proc roots packages → packages.length ≤ 127 →
        ∀ tok, result ≠ .error (.fail (.maxRecursionOn tok)) := by
  obtain ⟨result, ends, isResult⟩ := (stackSearch_start proc roots).ends
  obtain ⟨fuel, returned⟩ := Loop.run_of_ends ends
  refine ⟨fuel, result, returned, isResult.noFault, isResult.full, ?_⟩
  intro packages set few tok failed
  obtain ⟨visited, nodup, many, isVisited⟩ := isResult.full tok failed
  have inside : visited ⊆ packages := fun realname member =>
    set.visited (isVisited realname member)
  have fits := (List.subperm_of_subset nodup inside).length_le
  omega

end UConfig
