/-
This file proves that a process only fails for a specification that the roots require.
-/

import UConfig.Proof.Process.Flat

namespace UConfig

open GraphSearch

section

variable {proc : Processor} {m : Machine} {frame : Frame S8 PkgSpec}
  {rest : List (Frame S8 PkgSpec)} {entry : S8 → Option (Pkg × Marks)} {order : List S8}
  {stop : Stop}

/-- The stop says that the stack is full. -/
def Stop.IsFull (stop : Stop) : Prop := ∃ tok, stop = .fail (.maxRecursionOn tok)

/-- The visit of a loaded package only stops when the stack is full. -/
theorem visitLoaded_error {states : List ProcState} (onStack : m.Stacks states) {p : Pkg}
    {depth : Nat} {flags : PkgFlags} (failed : visitLoaded proc m p depth flags = .error stop) :
    stop.IsFull := by
  rcases visitLoaded_cases proc.follow onStack p depth flags rfl with
    ⟨stack, top, pkgs, pushed, goes, _⟩ | ⟨_, _, tok, full⟩
  · rw [goes] at failed
    cases failed
  · rw [full] at failed
    cases failed
    exact ⟨tok, rfl⟩

/-- The visit of a new package stops when it cannot be loaded or when the stack is full. -/
theorem visitNew_error {s : ProcState} {states : List ProcState}
    (onStack : m.Stacks (s :: states)) {spec : PkgSpec} {depth : Nat} {flags : PkgFlags}
    (failed : visitNew proc m s spec (freshPkg (pathToRealname spec.name)) depth flags =
      .error stop) : loadSpec proc spec = .error stop ∨ stop.IsFull := by
  obtain ⟨stack, set, onStack⟩ :=
    onStack.setSlot { s with newpkg := some (freshPkg (pathToRealname spec.name)).realname }
  rw [visitNew, set] at failed
  rw [loadSpec]
  cases loaded : loadPkg proc (freshPkg (pathToRealname spec.name)) spec.name with
  | error other =>
      simp only [loaded, bind, Except.bind] at failed
      cases failed
      exact .inl rfl
  | ok pkg =>
      cases checked : checkVersion proc pkg spec with
      | error other =>
          simp only [loaded, checked, bind, Except.bind] at failed
          cases failed
          exact .inl (by simp only [checked, bind, Except.bind])
      | ok _ =>
          have onStack := onStack.withPkgs (m.pkgs.setPkg pkg.realname pkg)
          simp only [loaded, checked, bind, Except.bind] at failed
          split at failed
          case isFalse => cases failed
          case isTrue =>
            split at failed
            case isTrue =>
              cases failed
              exact .inr ⟨_, rfl⟩
            case isFalse room =>
              obtain ⟨first, push, onStack⟩ := onStack.push (by dsimp only; omega)
                pkg.specsRequires depth flags.clearDirect
              obtain ⟨second, push', _⟩ := onStack.push (by dsimp only; omega)
                pkg.specsRequiresPrivate depth .zero
              simp only [push, push'] at failed
              cases failed

/-- A visit only fails in its first part. -/
theorem error_of_bind {Value Result : Type} {first : Except Stop Value} {second : Value → Result}
    (failed : (do let value ← first; return second value) = (.error stop : Except Stop Result)) :
    first = .error stop := by
  cases first with
  | error other =>
      cases failed
      rfl
  | ok value => cases failed

/-- A turn only stops at a specification whose package cannot be loaded, or when the stack is
full. -/
theorem processTurn_error (represents : Represents m ⟨frame :: rest, entry, order⟩)
    (failed : processTurn proc m = .error stop) :
    (∃ request later, frame.pending = request :: later ∧ loadSpec proc request = .error stop) ∨
      stop.IsFull := by
  cases isNext : frame.pending with
  | nil =>
      obtain ⟨next, pops, _⟩ := processTurn_pop proc represents isNext
      rw [pops] at failed
      cases failed
  | cons request later =>
      have loaded := represents.loaded (pathToRealname request.name)
      obtain ⟨s, states, pkgs, rfl, rfl, finished⟩ := represents.finished
      obtain ⟨stack, onStack, turn⟩ := processTurn_visit proc finished isNext
      rw [turn] at failed
      have visitFailed := error_of_bind failed
      cases known : entry (pathToRealname request.name) with
      | none =>
          rw [← finished.entries] at known
          have missing : pkgs.find (pathToRealname request.name) = none :=
            Option.map_eq_none_iff.mp known
          rw [visit_unknown missing] at visitFailed
          have notNew := visitNew_error (onStack.withPkgs _) (error_of_bind visitFailed)
          exact notNew.imp_left fun culprit => ⟨request, later, rfl, culprit⟩
      | some value =>
          have contents := (loaded value.1 value.2 known).2
          rw [← finished.entries] at known
          obtain ⟨own, found, isOwn, _⟩ := Pkgs.find_of_entry known
          have isLoaded : own.pkg.contents.isSome = true := by
            rw [← isOwn] at contents
            exact contents
          rw [visit_known found isLoaded] at visitFailed
          exact .inr (visitLoaded_error onStack (error_of_bind visitFailed))

end

/-- A process that fails has met a specification, required by the roots, that fails in the same way
on its own, or its stack is full. -/
theorem failure_requested {proc : Processor} {roots : List PkgSpec} {fuel : Nat} {stop : Stop}
    (failed : process fuel proc roots = some (.error stop)) :
    (∃ spec, (packageGraph proc proc.follow).Requested roots spec ∧
      loadSpec proc spec = .error stop) ∨ stop.IsFull := by
  obtain ⟨last, runs, leaves⟩ := Loop.ends_of_run failed
  obtain ⟨state, searched, represents⟩ :=
    represents_runs proc.follow_agrees (represents_start roots) runs
  have stops : processTurn proc last = .error stop := by
    rw [processBody] at leaves
    split at leaves
    case h_1 other turn =>
      cases leaves
      exact turn
    case h_2 => cases leaves
    case h_3 => cases leaves
  obtain ⟨frames, entry, order⟩ := state
  cases frames with
  | nil =>
      rw [processTurn_done represents] at stops
      cases stops
  | cons frame rest =>
      refine (processTurn_error represents stops).imp_left ?_
      rintro ⟨request, later, isNext, culprit⟩
      refine ⟨request, searched.expected.pending frame List.mem_cons_self request ?_, culprit⟩
      rw [isNext]
      exact List.mem_cons_self

/-- At most 127 packages never fill the stack, so a specification is to blame. -/
theorem failure_of_few {proc : Processor} {roots : List PkgSpec} {packages : List S8}
    (set : PackageSet proc roots packages) (few : packages.length ≤ 127) {fuel : Nat} {stop : Stop}
    (failed : process fuel proc roots = some (.error stop)) :
    ∃ spec, (packageGraph proc proc.follow).Requested roots spec ∧
      loadSpec proc spec = .error stop := by
  refine (failure_requested failed).resolve_right ?_
  rintro ⟨tok, rfl⟩
  obtain ⟨result, ends, isResult⟩ := (stackSearch_start proc roots).ends
  have same := ends.unique (Loop.ends_of_run failed)
  obtain ⟨visited, nodup, many, isVisited⟩ := isResult.full tok same
  have inside : visited ⊆ packages := fun realname member =>
    set.visited (isVisited realname member)
  have fits := (List.subperm_of_subset nodup inside).length_le
  omega

/-- As long as the memory suffices every process ends. When it fails, its stack is full or some
specification that the roots require fails in the same way on its own. With at most 127 packages
the second is the only way to fail, so roots succeed whose required specifications can all be
loaded. -/
theorem process_blames (proc : Processor) (roots : List PkgSpec) :
    ∃ fuel result, process fuel proc roots = some result ∧
      (∀ stop, result = .error stop →
        (∃ spec, (packageGraph proc proc.follow).Requested roots spec ∧
          loadSpec proc spec = .error stop) ∨
        ∃ tok, stop = .fail (.maxRecursionOn tok)) ∧
      ∀ packages, PackageSet proc roots packages → packages.length ≤ 127 →
        (∀ stop, result = .error stop → ∃ spec,
          (packageGraph proc proc.follow).Requested roots spec ∧
            loadSpec proc spec = .error stop) ∧
        ((∀ spec, (packageGraph proc proc.follow).Requested roots spec →
          ∃ p, loadSpec proc spec = .ok p) → ∃ pkgs, result = .ok pkgs) := by
  obtain ⟨result, ends, _⟩ := (stackSearch_start proc roots).ends
  obtain ⟨fuel, returned⟩ := Loop.run_of_ends ends
  refine ⟨fuel, result, returned, ?_, fun packages set few => ?_⟩
  · rintro stop rfl
    exact failure_requested returned
  have culprit : ∀ stop, result = .error stop → ∃ spec,
      (packageGraph proc proc.follow).Requested roots spec ∧ loadSpec proc spec = .error stop := by
    rintro stop rfl
    exact failure_of_few set few returned
  refine ⟨culprit, fun loads => ?_⟩
  cases result with
  | ok pkgs => exact ⟨pkgs, rfl⟩
  | error stop =>
      obtain ⟨spec, requested, failed⟩ := culprit stop rfl
      obtain ⟨p, loaded⟩ := loads spec requested
      rw [loaded] at failed
      cases failed

end UConfig
