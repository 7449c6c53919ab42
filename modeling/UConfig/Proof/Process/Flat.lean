/-
This file proves that a process that does not recurse is a plain loop over its specifications.
-/

import UConfig.Proof.Process.Stack

namespace UConfig

open GraphSearch

/-- The package that a specification asks for, when its version is right. -/
def loadSpec (proc : Processor) (spec : PkgSpec) : Except Stop Pkg := do
  let p ← loadPkg proc (freshPkg (pathToRealname spec.name)) spec.name
  checkVersion proc p spec
  return p

/-- A package that has been loaded stands under its real name, the newest one first. -/
abbrev Loaded := List (S8 × Pkg)

/-- The specifications are loaded one after the other, and known names are passed over. -/
def loadSpecs (proc : Processor) : List PkgSpec → Loaded → Except Stop Loaded
  | [], loaded => .ok loaded
  | spec :: specs, loaded =>
      if (loaded.lookup (pathToRealname spec.name)).isSome then loadSpecs proc specs loaded
      else
        match loadSpec proc spec with
        | .error stop => .error stop
        | .ok p => loadSpecs proc specs ((pathToRealname spec.name, p) :: loaded)

section

variable {proc : Processor} {m : Machine} {frame : Frame S8 PkgSpec}
  {rest : List (Frame S8 PkgSpec)} {entry : S8 → Option (Pkg × Marks)} {order : List S8}

/-- A request loads its package when the specification does. -/
theorem loads_iff {spec : PkgSpec} {p : Pkg} {follow : Nat → Bool} :
    (packageGraph proc follow).Loads spec p ↔ loadSpec proc spec = .ok p := by
  rw [loadSpec, bind_eq_ok]
  constructor
  · rintro ⟨loaded, checked⟩
    refine ⟨p, loaded, ?_⟩
    rw [checked]
    rfl
  · rintro ⟨other, loaded, rest⟩
    obtain ⟨_, checked, same⟩ := bind_eq_ok.mp rest
    cases same
    exact ⟨loaded, checked⟩

/-- The visit of a known name does not load anything. -/
theorem visit_known {stack : Vector ProcState 256} {top : Int} {pkgs : Pkgs} {s : ProcState}
    {request : PkgSpec} {own : PkgNode} (found : pkgs.find (pathToRealname request.name) = some own)
    (isLoaded : own.pkg.contents.isSome = true) :
    visit proc ⟨stack, top, pkgs⟩ s request = (do
      let m ← visitLoaded proc ⟨stack, top, pkgs⟩ own.pkg (s.depth + 1) s.flags
      return { m with pkgs := m.pkgs.addFlags (pathToRealname request.name) s.flags }) := by
  simp only [visit, Pkgs.locate_known found, found, if_pos isLoaded]

/-- The visit of a new name loads its package. -/
theorem visit_unknown {stack : Vector ProcState 256} {top : Int} {pkgs : Pkgs} {s : ProcState}
    {request : PkgSpec} (missing : pkgs.find (pathToRealname request.name) = none) :
    visit proc ⟨stack, top, pkgs⟩ s request = (do
      let m ← visitNew proc ⟨stack, top, pkgs.locate (pathToRealname request.name)⟩ s request
        (freshPkg (pathToRealname request.name)) (s.depth + 1) s.flags
      return { m with pkgs := m.pkgs.addFlags (pathToRealname request.name) s.flags }) := by
  have located := Pkgs.find_locate missing (pathToRealname request.name)
  rw [if_pos rfl] at located
  simp only [visit, located]
  rfl

/-- A turn that meets a known name goes on without a push. -/
theorem processTurn_known (flat : proc.recursive = false)
    (represents : Represents m ⟨frame :: rest, entry, order⟩)
    {request : PkgSpec} {later : List PkgSpec} (isNext : frame.pending = request :: later)
    {node : Pkg} {marks : Marks}
    (known : entry (pathToRealname request.name) = some (node, marks)) :
    ∃ m', processTurn proc m = .ok (.inl m') := by
  have contents := (represents.loaded (pathToRealname request.name) node marks known).2
  obtain ⟨s, states, pkgs, rfl, rfl, finished⟩ := represents.finished
  obtain ⟨stack, _, turn⟩ := processTurn_visit proc finished isNext
  rw [← finished.entries] at known
  obtain ⟨own, found, rfl, _⟩ := Pkgs.find_of_entry known
  have goes : ∃ m', visitLoaded proc ⟨stack, m.top, pkgs⟩ own.pkg (s.depth + 1) s.flags =
      .ok m' := by
    simp only [visitLoaded, flat, Bool.false_and, Bool.false_eq_true, if_false]
    split
    · exact ⟨_, rfl⟩
    · exact ⟨_, rfl⟩
  obtain ⟨m', goes⟩ := goes
  rw [turn, visit_known found contents, goes]
  exact ⟨_, rfl⟩

/-- A turn that visits a new name goes on or stops with loading it. -/
theorem processTurn_unknown (flat : proc.recursive = false)
    (represents : Represents m ⟨frame :: rest, entry, order⟩)
    {request : PkgSpec} {later : List PkgSpec} (isNext : frame.pending = request :: later)
    (unknown : entry (pathToRealname request.name) = none) :
    match loadSpec proc request with
    | .error stop => processTurn proc m = .error stop
    | .ok _ => ∃ m', processTurn proc m = .ok (.inl m') := by
  obtain ⟨s, states, pkgs, rfl, rfl, finished⟩ := represents.finished
  obtain ⟨stack, onStack, turn⟩ := processTurn_visit proc finished isNext
  have missing : pkgs.find (pathToRealname request.name) = none := by
    rw [← finished.entries] at unknown
    exact Option.map_eq_none_iff.mp unknown
  obtain ⟨stack', set, _⟩ := (onStack.withPkgs (pkgs.locate (pathToRealname request.name))).setSlot
    ⟨later, some (pathToRealname request.name), s.depth, s.flags⟩
  have name : (freshPkg (pathToRealname request.name)).realname = pathToRealname request.name := rfl
  rw [turn, visit_unknown missing, loadSpec]
  cases loaded : loadPkg proc (freshPkg (pathToRealname request.name)) request.name with
  | error stop =>
      simp only [visitNew, name, set, loaded, bind, Except.bind]
  | ok p =>
      cases checked : checkVersion proc p request with
      | error stop =>
          simp only [visitNew, name, set, loaded, checked, bind, Except.bind]
      | ok _ =>
          simp only [visitNew, name, set, loaded, checked, bind, Except.bind, flat, Bool.false_and,
            Bool.false_eq_true, if_false]
          exact ⟨_, rfl⟩

end

/-- The packages of the roots are direct and public. -/
def Pkg.mark (p : Pkg) : Pkg := { p with flags := ⟨true, true⟩ }

/-- The search has entered what has been loaded. -/
def Enters (entry : S8 → Option (Pkg × Marks)) (loaded : Loaded) : Prop :=
  ∀ realname, entry realname = (loaded.lookup realname).map fun p => (p, ⟨true, true⟩)

/-- The set lists what has been loaded. -/
structure Pkgs.Describes (pkgs : Pkgs) (loaded : Loaded) : Prop where
  names : pkgs.list = loaded.map Prod.fst
  distinct : (loaded.map Prod.fst).Nodup
  count : pkgs.count = loaded.length
  found : ∀ realname, (pkgs.find realname).map (·.pkg) = (loaded.lookup realname).map Pkg.mark

/-- Without recursion the search follows nothing. -/
theorem flat_agrees {proc : Processor} (flat : proc.recursive = false) :
    Follows.Agrees proc fun _ => false := by
  intro depth _
  rw [flat, Bool.false_and]

/-- A name that is known stays known with the same marks. -/
theorem Enters.meet {entry : S8 → Option (Pkg × Marks)} {loaded : Loaded}
    (enters : Enters entry loaded) {realname : S8} {p : Pkg}
    (known : loaded.lookup realname = some p) :
    Enters (Function.update entry realname
      (some (p, (⟨true, true⟩ : Marks).join ⟨true, true⟩))) loaded := by
  intro other
  by_cases same : other = realname
  · rw [same, Function.update_self, known]
    rfl
  · rw [Function.update_of_ne same]
    exact enters other

/-- A new name joins what has been loaded. -/
theorem Enters.load {entry : S8 → Option (Pkg × Marks)} {loaded : Loaded}
    (enters : Enters entry loaded) (realname : S8) (p : Pkg) :
    Enters (Function.update entry realname (some (p, ⟨true, true⟩))) ((realname, p) :: loaded) := by
  intro other
  rw [List.lookup_cons]
  by_cases same : other = realname
  · rw [same, Function.update_self, beq_self_eq_true]
    rfl
  · rw [Function.update_of_ne same, beq_eq_false_iff_ne.mpr same]
    exact enters other

/-- A finished search describes the set of its machine. -/
theorem Represents.describes {m : Machine} {state : State S8 PkgSpec Pkg} {loaded : Loaded}
    (represents : Represents m state) (finished : state.frames = [])
    (order : state.order = loaded.map Prod.fst) (enters : Enters state.entry loaded) :
    m.pkgs.Describes loaded := by
  obtain ⟨names, count⟩ := represents.list_eq finished
  have distinct := represents.tracked.nodup
  rw [State.unfinished, finished, List.filterMap_nil, List.nil_append, order] at distinct
  refine ⟨names.trans order, distinct, ?_, ?_⟩
  · rw [← count, order, List.length_map]
  · intro realname
    have known := enters realname
    rw [represents.entries, Pkgs.entry] at known
    cases found : m.pkgs.find realname with
    | none =>
        rw [found] at known
        cases look : loaded.lookup realname with
        | none => rfl
        | some p =>
            rw [look] at known
            cases known
    | some node =>
        rw [found] at known
        cases look : loaded.lookup realname with
        | none =>
            rw [look] at known
            cases known
        | some p =>
            rw [look] at known
            obtain ⟨same, marks⟩ := Prod.mk.inj (Option.some.inj known)
            have flags : node.pkg.flags = ⟨true, true⟩ := by
              obtain ⟨direct, strong⟩ := Marks.mk.inj marks
              cases whole : node.pkg.flags with
              | mk isDirect isPublic =>
                  rw [whole] at direct strong
                  cases direct
                  cases strong
                  rfl
            simp only [Option.map_some, Pkg.mark, ← same, Pkg.unmarked, ← flags]

/-- The machine ends with what has been loaded or with the same failure. -/
def EndsWith (proc : Processor) (m : Machine) : Except Stop Loaded → Prop
  | .error stop => Loop.Ends (processBody proc) m (.error stop)
  | .ok loaded => ∃ pkgs, Loop.Ends (processBody proc) m (.ok pkgs) ∧ pkgs.Describes loaded

/-- A turn before does not change the end. -/
theorem EndsWith.after {proc : Processor} {m next : Machine} {result : Except Stop Loaded}
    (ends : EndsWith proc next result) (turn : processTurn proc m = .ok (.inl next)) :
    EndsWith proc m result := by
  have turn : processBody proc m = .inl next := by rw [processBody, turn]
  cases result with
  | error stop => exact Loop.Ends.after (.single turn) ends
  | ok loaded =>
      obtain ⟨pkgs, ends, describes⟩ := ends
      exact ⟨pkgs, ends.after (.single turn), describes⟩

/-- The loop of the machine ends as the loop over the specifications does. -/
theorem Represents.flat_ends {proc : Processor} (flat : proc.recursive = false)
    (pending : List PkgSpec) {loaded : Loaded} {m : Machine} {fresh : Option S8}
    {entry : S8 → Option (Pkg × Marks)} {order : List S8}
    (represents : Represents m ⟨[⟨pending, fresh, 0, ⟨true, true⟩⟩], entry, order⟩)
    (enters : Enters entry loaded) (names : fresh.toList ++ order = loaded.map Prod.fst) :
    EndsWith proc m (loadSpecs proc pending loaded) := by
  induction pending generalizing m fresh entry order loaded with
  | nil =>
      obtain ⟨next, pops, represents'⟩ := processTurn_pop proc represents rfl
      have done : processTurn proc next = .ok (.inr next.pkgs) := processTurn_done represents'
      have leaves : processBody proc next = .inr (.ok next.pkgs) := by rw [processBody, done]
      have ends : EndsWith proc next (.ok loaded) :=
        ⟨next.pkgs, ⟨next, .refl, leaves⟩, represents'.describes rfl names enters⟩
      exact ends.after pops
  | cons request later ih =>
      have target := enters (pathToRealname request.name)
      rw [loadSpecs]
      cases look : loaded.lookup (pathToRealname request.name) with
      | some p =>
          rw [look] at target
          rw [Option.isSome_some, if_pos rfl]
          obtain ⟨next, goes⟩ := processTurn_known flat represents rfl target
          rcases processTurn_meet (flat_agrees flat) represents rfl target with
            ⟨other, goes', represents'⟩ | ⟨stop, stops, _⟩
          · rw [goes] at goes'
            cases goes'
            exact (ih represents' (enters.meet look) names).after goes
          · rw [goes] at stops
            cases stops
      | none =>
          rw [look] at target
          rw [Option.isSome_none, if_neg (by decide)]
          have unknown := processTurn_unknown flat represents rfl target
          cases loads : loadSpec proc request with
          | error stop =>
              rw [loads] at unknown
              exact ⟨m, .refl, by rw [processBody, unknown]⟩
          | ok p =>
              rw [loads] at unknown
              obtain ⟨next, goes⟩ := unknown
              rcases processTurn_load (flat_agrees flat) represents rfl target with
                ⟨other, node, goes', isLoad, represents'⟩ | ⟨stop, stops, _⟩
              · rw [goes] at goes'
                cases goes'
                rw [loads_iff, loads] at isLoad
                cases isLoad
                have joined : (some (pathToRealname request.name)).toList ++ (fresh.toList ++ order) =
                    ((pathToRealname request.name, p) :: loaded).map Prod.fst := by
                  rw [names]
                  rfl
                exact (ih represents' (enters.load _ p) joined).after goes
              · rw [goes] at stops
                cases stops

/-- The whole process ends with the plain loop. -/
theorem flat_process {proc : Processor} (flat : proc.recursive = false) (specs : List PkgSpec) :
    EndsWith proc (processStart specs) (loadSpecs proc specs []) :=
  (represents_start specs).flat_ends flat specs (fun _ => rfl) rfl

/-- Every loaded package is found under its own name. -/
theorem filterMap_lookup {Value : Type} (change : Pkg → Value) {loaded : Loaded}
    (distinct : (loaded.map Prod.fst).Nodup) :
    (loaded.map Prod.fst).filterMap (fun realname => (loaded.lookup realname).map change) =
      loaded.map fun entry => change entry.2 := by
  induction loaded with
  | nil => rfl
  | cons entry loaded ih =>
      obtain ⟨realname, p⟩ := entry
      rw [List.map_cons, List.nodup_cons] at distinct
      have own : ((realname, p) :: loaded).lookup realname = some p := by simp
      have others : (loaded.map Prod.fst).filterMap
          (fun other => (((realname, p) :: loaded).lookup other).map change) =
          (loaded.map Prod.fst).filterMap fun other => (loaded.lookup other).map change := by
        apply List.filterMap_congr
        intro other member
        have different : other ≠ realname := by
          rintro rfl
          exact distinct.1 member
        rw [List.lookup_cons, beq_eq_false_iff_ne.mpr different]
      simp only [List.map_cons, List.filterMap_cons, own, Option.map_some]
      rw [others, ih distinct.2]

/-- The packages stand in the order of the last specifications that name them, which are listed from
the last one to the first. -/
theorem loadSpecs_names {proc : Processor} {specs : List PkgSpec} {loaded result : Loaded}
    (loads : loadSpecs proc specs loaded = .ok result) (earlier : List S8)
    (names : loaded.map Prod.fst = earlier.dedup) :
    result.map Prod.fst =
      ((specs.reverse.map fun spec => pathToRealname spec.name) ++ earlier).dedup := by
  induction specs generalizing loaded earlier with
  | nil =>
      cases loads
      exact names
  | cons spec specs ih =>
      have known : (loaded.lookup (pathToRealname spec.name)).isSome = true ↔
          pathToRealname spec.name ∈ earlier := by
        rw [← List.mem_dedup, ← names]
        simp [List.lookup_isSome_iff]
      have joined : ((spec :: specs).reverse.map fun spec => pathToRealname spec.name) ++ earlier =
          (specs.reverse.map fun spec => pathToRealname spec.name) ++
            pathToRealname spec.name :: earlier := by
        simp
      rw [joined]
      rw [loadSpecs] at loads
      split at loads
      case isTrue isKnown =>
        exact ih loads _ (by rw [names, List.dedup_cons_of_mem (known.mp isKnown)])
      case isFalse isNew =>
        rw [known] at isNew
        cases fresh : loadSpec proc spec with
        | error stop =>
            rw [fresh] at loads
            cases loads
        | ok p =>
            rw [fresh] at loads
            exact ih loads _ (by rw [List.map_cons, names, List.dedup_cons_of_notMem isNew])

/-- Without recursion a process loads its specifications in order, each real name once. It fails as
the first load fails that does, and its packages are the loaded ones, which are direct and public
and stand in the order of the last specifications that name them. -/
theorem process_flat (proc : Processor) (flat : proc.recursive = false) (specs : List PkgSpec) :
    ∃ fuel result, process fuel proc specs = some result ∧
      match loadSpecs proc specs [] with
      | .error stop => result = .error stop
      | .ok loaded => ∃ pkgs, result = .ok pkgs ∧ pkgs.Describes loaded ∧
          pkgs.list = (specs.reverse.map fun spec => pathToRealname spec.name).dedup := by
  have ends := flat_process flat specs
  cases loads : loadSpecs proc specs [] with
  | error stop =>
      rw [loads] at ends
      obtain ⟨fuel, returned⟩ := Loop.run_of_ends ends
      exact ⟨fuel, _, returned, rfl⟩
  | ok loaded =>
      rw [loads] at ends
      obtain ⟨pkgs, ends, describes⟩ := ends
      obtain ⟨fuel, returned⟩ := Loop.run_of_ends ends
      have names := loadSpecs_names loads [] rfl
      rw [List.append_nil] at names
      exact ⟨fuel, _, returned, pkgs, rfl, describes, describes.names.trans names⟩

/-- The packages of the specifications require packages that do not exist. -/
def flatProcessor : Processor :=
  { memoryProcessor [(S "d/a.pc", pkgText (S "1") (S "missing") []),
      (S "d/b.pc", pkgText (S "2") [] (S "missing"))] with recursive := false }

def flatRoots : List PkgSpec := [S "a", S "b", S "a"].map newPkgSpec

/-- Two packages are listed although one requires a missing package. -/
theorem process_flat_missing : ∃ pkgs loaded,
    process 10 flatProcessor flatRoots = some (.ok pkgs) ∧
    loadSpecs flatProcessor flatRoots [] = .ok loaded ∧ pkgs.Describes loaded ∧
      pkgs.list = [S "b", S "a"] := by
  have counted : returnedValue Pkgs.count (process 10 flatProcessor flatRoots) = some 2 := by
    delta process processBody processTurn visit visitNew loadPkg expandMerge mergeField expandField
    rw [expand_eq_recursive]
    decide +kernel
  obtain ⟨pkgs, returned, _⟩ := returnedValue_eq_some _ counted
  obtain ⟨fuel, result, returned', isResult⟩ := process_flat flatProcessor rfl flatRoots
  cases (Loop.grows_run _ _).unique returned returned'
  cases loads : loadSpecs flatProcessor flatRoots [] with
  | error stop =>
      rw [loads] at isResult
      cases isResult
  | ok loaded =>
      rw [loads] at isResult
      obtain ⟨_, same, describes, list⟩ := isResult
      cases same
      exact ⟨pkgs, loaded, returned, rfl, describes, list.trans (by decide +kernel)⟩

end UConfig
