/-
This file proves when a process has enforced every version that was asked for.
-/

import UConfig.Proof.Process.Universe

namespace UConfig

open GraphSearch

/-- A specification without an operator asks for no version. -/
def Satisfies (spec : PkgSpec) (p : Pkg) : Prop :=
  spec.op ≠ .err → validCompare spec.op
    (compareVersions ((p.field .version).getD []) (spec.version.getD [])) = some true

instance (spec : PkgSpec) (p : Pkg) : Decidable (Satisfies spec p) :=
  inferInstanceAs (Decidable (_ → _))

/-- The loaded packages satisfy the roots and the requirements of all loaded packages. -/
def Enforced (roots : List PkgSpec) (pkgs : Pkgs) : Prop :=
  ∀ spec, (spec ∈ roots ∨ ∃ realname node, pkgs.find realname = some node ∧
      spec ∈ node.pkg.specsRequires ++ node.pkg.specsRequiresPrivate) →
    ∃ node, pkgs.find (pathToRealname spec.name) = some node ∧ Satisfies spec node.pkg

/-- Every visit of a package that is already loaded asks for a version that it has. -/
def MeetsSatisfied (proc : Processor) (roots : List PkgSpec) : Prop :=
  ∀ m, Loop.Runs (processBody proc) (processStart roots) m → ∀ spec depth node,
    m.Visits spec depth → m.pkgs.find (pathToRealname spec.name) = some node →
      Satisfies spec node.pkg

variable {proc : Processor} {roots : List PkgSpec}

/-- The check of the version fails unless the package satisfies its specification. -/
theorem satisfies_of_checkVersion (checks : proc.ignoreVersions = false) {p : Pkg}
    {spec : PkgSpec} (checked : checkVersion proc p spec = .ok ()) : Satisfies spec p := by
  intro isOp
  rw [checkVersion, if_pos ⟨isOp, by rw [checks]; rfl⟩] at checked
  dsimp only at checked
  split at checked
  · cases checked
  · assumption
  · cases checked

/-- A visit leaves a package behind that satisfies the visited specification. -/
theorem visit_satisfies {follow : Nat → Bool} (checks : proc.ignoreVersions = false)
    (meets : MeetsSatisfied proc roots) {m : Machine}
    (runs : Loop.Runs (processBody proc) (processStart roots) m)
    {state next : State S8 PkgSpec Pkg} (represents : Represents m state)
    (step : Step (packageGraph proc follow) state next) {frame : Frame S8 PkgSpec}
    {rest : List (Frame S8 PkgSpec)} {request : PkgSpec} {later : List PkgSpec} {pkg : Pkg}
    {marks : Marks} (frames : state.frames = frame :: rest)
    (isNext : frame.pending = request :: later)
    (known : next.entry (pathToRealname request.name) = some (pkg, marks)) :
    Satisfies request pkg := by
  have meet : ∀ marks', state.entry (pathToRealname request.name) = some (pkg, marks') →
      Satisfies request pkg := by
    intro marks' known'
    have visits : m.Visits request (frame.depth + 1) :=
      (represents.visits_iff _ _).mpr ⟨frame, rest, later, frames, isNext, rfl⟩
    obtain ⟨own, found, isNode, _⟩ := represents.find_of_entry known'
    rw [← isNode]
    exact meets m runs request _ own visits found
  generalize target : pathToRealname request.name = realname at known
  cases step.entry_origin known with
  | kept old => exact meet marks (target ▸ old)
  | met frames' isNext' old pushed => exact meet _ (target ▸ old)
  | loaded frames' isNext' unknown loads pushed =>
      obtain ⟨rfl, -⟩ := List.cons.inj (frames'.symm.trans frames)
      obtain ⟨rfl, -⟩ := List.cons.inj (isNext'.symm.trans isNext)
      exact satisfies_of_checkVersion checks loads.2

/-- While every visit is satisfied, every requested version is satisfied or still pending. -/
theorem satisfied_runs (unlimited : proc.Unlimited) (checks : proc.ignoreVersions = false)
    (meets : MeetsSatisfied proc roots) {m : Machine}
    (runs : Loop.Runs (processBody proc) (processStart roots) m) :
    ∃ state, Represents m state ∧
      ∀ request, Source (packageGraph proc fun _ => true) roots state request →
        Owed (packageGraph proc fun _ => true) (fun request pkg _ => Satisfies request pkg)
          (fun _ => True) state request := by
  induction runs with
  | refl =>
      refine ⟨start roots, represents_start roots, fun request source => .inr ?_⟩
      have isRoot : request ∈ roots := by simpa [start, Source] using source
      exact ⟨⟨roots, none, 0, ⟨true, true⟩⟩, List.mem_singleton_self _, trivial, isRoot⟩
  | tail runs turn ih =>
      obtain ⟨state, represents, owed⟩ := ih
      obtain ⟨state', step, represents'⟩ := represents_turn unlimited.agrees represents turn
      refine ⟨state', represents', sources_step (fun _ => rfl) step (fun _ _ _ _ _ _ held => held)
        ?_ owed⟩
      intro frame rest request later pkg marks frames isNext known
      exact visit_satisfies checks meets runs represents step frames isNext known

/-- A run that returns still has every package that it had on its way. -/
theorem find_at_end {follow : Nat → Bool} {last : Machine} {state final : State S8 PkgSpec Pkg}
    (represents : Represents last final) (rest : Runs (packageGraph proc follow) state final)
    {realname : S8} {pkg : Pkg} {marks : Marks} (known : state.entry realname = some (pkg, marks)) :
    ∃ own, last.pkgs.find realname = some own ∧ own.pkg.unmarked = pkg := by
  obtain ⟨marks', known'⟩ := Runs.node rest known
  obtain ⟨own, isOwn, isPkg, _⟩ := represents.find_of_entry known'
  exact ⟨own, isOwn, isPkg⟩

/-- Whether a version is accepted does not depend on the flags of its package. -/
theorem satisfies_unmarked {spec : PkgSpec} {p : Pkg} :
    Satisfies spec p.unmarked ↔ Satisfies spec p := Iff.rfl

/-- When the versions are enforced at the end, every visit on the way was satisfied. -/
theorem meets_of_enforced (unlimited : proc.Unlimited) {fuel : Nat} {pkgs : Pkgs}
    (returned : process fuel proc roots = some (.ok pkgs)) (enforced : Enforced roots pkgs) :
    MeetsSatisfied proc roots := by
  intro m runs spec depth node visits found
  obtain ⟨state, searched, represents⟩ :=
    represents_runs unlimited.agrees (represents_start roots) runs
  obtain ⟨last, final, _, rest, represents', _, same⟩ :=
    process_returns unlimited.agrees returned runs represents
  subst same
  obtain ⟨frame, below, later, frames, pending, _⟩ := (represents.visits_iff _ _).mp visits
  have source : Source (packageGraph proc fun _ => true) roots state spec := by
    apply (Runs.sourced searched) frame (frames ▸ List.mem_cons_self)
    rw [pending]
    exact List.mem_cons_self
  -- The specification still has its source at the end.
  have satisfied : ∃ own, last.pkgs.find (pathToRealname spec.name) = some own ∧
      Satisfies spec own.pkg := by
    apply enforced
    cases source with
    | inl isRoot => exact .inl isRoot
    | inr requested =>
        obtain ⟨realname, pkg, marks, entered, member⟩ := requested
        obtain ⟨own, isOwn, isPkg⟩ := find_at_end represents' rest entered
        subst isPkg
        exact .inr ⟨realname, own, isOwn, member⟩
  obtain ⟨own, isOwn, held⟩ := satisfied
  obtain ⟨other, isOther, isPkg⟩ := find_at_end represents' rest (represents.entry_of_find found)
  rw [isOwn] at isOther
  cases isOther
  rw [← satisfies_unmarked, ← isPkg]
  exact held

/-- When every visit is satisfied, the versions are enforced at the end. -/
theorem enforced_of_meets (unlimited : proc.Unlimited) (checks : proc.ignoreVersions = false)
    {fuel : Nat} {pkgs : Pkgs} (returned : process fuel proc roots = some (.ok pkgs))
    (meets : MeetsSatisfied proc roots) : Enforced roots pkgs := by
  obtain ⟨last, whole, leaves⟩ := Loop.ends_of_run returned
  obtain ⟨state, represents, owed⟩ := satisfied_runs unlimited checks meets whole
  obtain ⟨finished, same⟩ := represents_return unlimited.agrees represents leaves
  subst same
  intro spec source
  have isSource : Source (packageGraph proc fun _ => true) roots state spec := by
    cases source with
    | inl isRoot => exact .inl isRoot
    | inr requested =>
        obtain ⟨realname, node, found, member⟩ := requested
        exact .inr ⟨realname, _, _, represents.entry_of_find found, member⟩
  obtain ⟨pkg, marks, known, held⟩ := (owed spec isSource).settled finished
  obtain ⟨node, found, isPkg, _⟩ := represents.find_of_entry known
  rw [← isPkg] at held
  exact ⟨node, found, held⟩

/-- The versions are enforced exactly when no visit of a loaded package needed a check. -/
theorem process_enforces (unlimited : proc.Unlimited) (checks : proc.ignoreVersions = false)
    (fuel : Nat) (pkgs : Pkgs) (returned : process fuel proc roots = some (.ok pkgs)) :
    Enforced roots pkgs ↔ MeetsSatisfied proc roots := by
  constructor
  · exact meets_of_enforced unlimited returned
  · exact enforced_of_meets unlimited checks returned

/-- A package that is asked for without a version and with one that it does not have. -/
def versionProcessor : Processor := memoryProcessor [(S "d/x.pc", pkgText (S "1") [] [])]

def versionRoots : List PkgSpec := [newPkgSpec (S "x"), ⟨S "x", .gt, some (S "99")⟩]

/-- The first root is the last argument. -/
example : (parseSpecs [S "x > 99", S "x"] none).toOption = some versionRoots := by
  decide +kernel

def versionUniverse : PackageUniverse versionProcessor versionRoots :=
  .ofNames _ _ [S "x"] (by
    delta plainClosed packageOf mergeFile expandMerge mergeField expandField
    rw [expand_eq_recursive]
    decide +kernel)

/-- The process accepts the wrong version. -/
theorem version_returned : ∃ pkgs, process 10 versionProcessor versionRoots = some (.ok pkgs) ∧
    (pkgs.find (S "x")).map (fun node =>
      decide (Satisfies ⟨S "x", .gt, some (S "99")⟩ node.pkg)) = some false := by
  apply returnedValue_eq_some
  delta process processBody processTurn visit visitNew loadPkg expandMerge mergeField expandField
  rw [expand_eq_recursive]
  decide +kernel

/-- So the versions are not enforced. -/
theorem version_ignored {pkgs : Pkgs} (found : (pkgs.find (S "x")).map (fun node =>
    decide (Satisfies ⟨S "x", .gt, some (S "99")⟩ node.pkg)) = some false) :
    ¬ Enforced versionRoots pkgs := by
  intro enforced
  obtain ⟨node, isNode, satisfied⟩ := enforced ⟨S "x", .gt, some (S "99")⟩ (.inl (by decide))
  have same : pathToRealname (S "x") = S "x" := by decide
  dsimp only at isNode
  rw [same] at isNode
  rw [isNode] at found
  exact of_decide_eq_false (Option.some.inj found) satisfied

/-- A version that is asked for later is not compared. -/
theorem process_enforces_ignored : ∃ pkgs,
    process 10 versionProcessor versionRoots = some (.ok pkgs) ∧
    ¬ Enforced versionRoots pkgs ∧ ¬ MeetsSatisfied versionProcessor versionRoots := by
  obtain ⟨pkgs, returned, found⟩ := version_returned
  have exact_iff := process_enforces ⟨rfl, rfl⟩ rfl 10 pkgs returned
  exact ⟨pkgs, returned, version_ignored found, mt exact_iff.mpr (version_ignored found)⟩

/-- A process can return although a version that was asked for is missing. -/
theorem process_ignores_version : ¬ ∀ (proc : Processor) (roots : List PkgSpec),
    proc.Unlimited → proc.ignoreVersions = false → PackageUniverse proc roots →
    ∀ fuel pkgs, process fuel proc roots = some (.ok pkgs) → Enforced roots pkgs := by
  intro always
  obtain ⟨pkgs, returned, found⟩ := version_returned
  exact version_ignored found
    (always versionProcessor versionRoots ⟨rfl, rfl⟩ rfl versionUniverse 10 pkgs returned)

end UConfig
