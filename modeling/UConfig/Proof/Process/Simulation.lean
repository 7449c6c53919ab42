/-
This file proves that every turn of the loop is one step of the search of the package graph.
-/

import UConfig.Proof.Process.Represents
import UConfig.Proof.Process.Stops

namespace UConfig

open GraphSearch

/-- Within the stack the depth limit of the graph is the one of the program. -/
def Follows.Agrees (proc : Processor) (follow : Nat → Bool) : Prop :=
  ∀ depth ≤ 256, follow depth = (proc.recursive && decide (depth < proc.maxDepth))

/-- Frames that are deep enough may be pushed. -/
theorem stacked_append {pushed frames : List (Frame S8 PkgSpec)}
    (stacked : Stacked frames) (deep : ∀ frame ∈ pushed, frame.depth ≤ frames.length) :
    Stacked (pushed ++ frames) := by
  induction pushed with
  | nil => exact stacked
  | cons frame pushed ih =>
      have bound := deep frame List.mem_cons_self
      have size : (pushed ++ frames).length = pushed.length + frames.length := List.length_append
      have inside : frame.depth ≤ (pushed ++ frames).length := by omega
      exact ⟨inside, ih fun other member => deep other (List.mem_cons_of_mem _ member)⟩

/-- The frames that a step pushes are as deep as the stack allows. -/
theorem stacked_step {proc : Processor} {follow : Nat → Bool} {state next : State S8 PkgSpec Pkg}
    (step : Step (packageGraph proc follow) state next) (stacked : Stacked state.frames) :
    Stacked next.frames := by
  cases step with
  | pop frame rest entry order idle => exact stacked.2
  | meet frame rest entry order request later node marks isNext known =>
      apply stacked_append (show Stacked (frame.resume later none :: rest) from stacked)
      intro child member
      rw [(Graph.mem_revealed member).deeper]
      exact Nat.succ_le_succ stacked.1
  | load frame rest entry order request later node isNext unknown loads =>
      apply stacked_append (show Stacked (frame.resume later _ :: rest) from stacked)
      intro child member
      rw [(Graph.mem_opened member).deeper]
      exact Nat.succ_le_succ stacked.1

/-- The packages of the search keep the names that they were located by. -/
theorem loaded_step {proc : Processor} {follow : Nat → Bool} {state next : State S8 PkgSpec Pkg}
    (step : Step (packageGraph proc follow) state next)
    (loaded : ∀ realname pkg marks, state.entry realname = some (pkg, marks) →
      pkg.realname = realname ∧ pkg.contents.isSome)
    (realname : S8) (pkg : Pkg) (marks : Marks)
    (known : next.entry realname = some (pkg, marks)) :
    pkg.realname = realname ∧ pkg.contents.isSome := by
  cases step.entry_origin known with
  | kept old => exact loaded realname pkg marks old
  | met frames isNext old pushed => exact loaded _ pkg _ old
  | loaded frames isNext unknown loads pushed =>
      have kept := loadPkg_kept loads.1
      exact ⟨kept.1, kept.2.1⟩

/-- The stack can only be full for one more frame of a strong one, or for the two frames of a package
that is visited for the first time. -/
inductive TurnStops : State S8 PkgSpec Pkg → Stop → Prop
  | ordinary {state stop} (isOrdinary : stop.Ordinary) : TurnStops state stop
  | met {frame rest entry order} (tok : S8) (strong : frame.marks.strong = true)
      (full : 256 ≤ (frame :: rest).length) :
      TurnStops ⟨frame :: rest, entry, order⟩ (.fail (.maxRecursionOn tok))
  | loaded {frame rest entry order request later} (tok : S8)
      (isNext : frame.pending = request :: later)
      (unknown : entry (pathToRealname request.name) = none)
      (full : 255 ≤ (frame :: rest).length) :
      TurnStops ⟨frame :: rest, entry, order⟩ (.fail (.maxRecursionOn tok))

section

variable {proc : Processor} {follow : Nat → Bool} {m : Machine}
  {frame : Frame S8 PkgSpec} {rest : List (Frame S8 PkgSpec)}
  {entry : S8 → Option (Pkg × Marks)} {order : List S8}

/-- What a turn finds on the stack and in the set after the new package has been prepended. -/
structure Finished (m : Machine) (s : ProcState) (states : List ProcState) (pkgs : Pkgs)
    (entry : S8 → Option (Pkg × Marks)) (order : List S8) : Prop where
  onStack : m.Stacks (s :: states)
  prepended : prependNew m.pkgs s.newpkg = .ok pkgs
  listed : pkgs.Listed (s.newpkg.toList ++ order)
  entries : pkgs.entry = entry
  count : pkgs.count = m.pkgs.count

/-- The new package of the top state can always be prepended. -/
theorem Represents.finished (represents : Represents m ⟨frame :: rest, entry, order⟩) :
    ∃ s states pkgs, s.frame = frame ∧ rest = states.map ProcState.frame ∧
      Finished m s states pkgs entry order := by
  obtain ⟨states, onStack, frames⟩ := represents.onStack
  cases states with
  | nil => cases frames
  | cons s states =>
      obtain ⟨isFrame, isRest⟩ := List.cons.inj frames
      cases fresh : s.newpkg with
      | none =>
          exact ⟨s, states, m.pkgs, isFrame.symm, isRest, onStack, by rw [fresh]; rfl,
            by rw [fresh]; exact represents.listed, represents.entries.symm, rfl⟩
      | some p =>
          have unfinished : p ∈ (⟨frame :: rest, entry, order⟩ : State S8 PkgSpec Pkg).unfinished := by
            rw [isFrame, State.unfinished, List.mem_filterMap]
            exact ⟨s.frame, List.mem_cons_self, fresh⟩
          have outside : p ∉ order := fun member =>
            (List.nodup_append.mp represents.tracked.nodup).2.2 p unfinished p member rfl
          obtain ⟨pkg, marks, known⟩ := (represents.tracked.entered p).mpr (.inl unfinished)
          rw [represents.entries] at known
          obtain ⟨node, found, _⟩ := Option.map_eq_some_iff.mp known
          obtain ⟨pkgs, prepended, listed, entries, count, _⟩ :=
            represents.listed.prepend found outside
          exact ⟨s, states, pkgs, isFrame.symm, isRest, onStack, by rw [fresh]; exact prepended,
            by rw [fresh]; exact listed, entries.trans represents.entries.symm, count⟩

/-- A machine whose stack is empty returns its set. -/
theorem processTurn_done (represents : Represents m ⟨[], entry, order⟩) :
    processTurn proc m = .ok (.inr m.pkgs) := by
  obtain ⟨states, onStack, frames⟩ := represents.onStack
  have isNil : states = [] := List.map_eq_nil_iff.mp frames.symm
  have empty : m.top < 0 := onStack.holds.nil_iff.mp isNil
  have count : m.pkgs.count = order.length := by
    rw [represents.count]
    exact Nat.zero_add _
  have list : m.pkgs.list = order := represents.listed.list_eq (by dsimp only; omega)
  have present : m.pkgs.allPresent = true := by
    rw [Pkgs.allPresent, list, count, beq_self_eq_true]
  rw [processTurn, if_pos empty, if_pos present]

/-- A machine with a state has a top slot. -/
theorem Finished.nonneg {s : ProcState} {states : List ProcState} {pkgs : Pkgs}
    (finished : Finished m s states pkgs entry order) : ¬ m.top < 0 := by
  rw [← finished.onStack.holds.nil_iff]
  exact List.cons_ne_nil _ _

/-- The stack has a frame for the top and for every slot below it. -/
theorem Finished.length_le {s : ProcState} {states : List ProcState} {pkgs : Pkgs}
    (finished : Finished m s states pkgs entry order) {slots : Nat} (full : m.top ≥ slots) :
    slots + 1 ≤ (s.frame :: states.map ProcState.frame).length := by
  have size := finished.onStack.holds.size
  rw [List.length_cons] at size ⊢
  rw [List.length_map]
  omega

variable (proc) in
/-- A turn without a specification left removes the top state. -/
theorem processTurn_pop (represents : Represents m ⟨frame :: rest, entry, order⟩)
    (idle : frame.pending = []) :
    ∃ m', processTurn proc m = .ok (.inl m') ∧
      Represents m' ⟨rest, entry, frame.fresh.toList ++ order⟩ := by
  have step : Step (packageGraph proc fun _ => true) ⟨frame :: rest, entry, order⟩
      ⟨rest, entry, frame.fresh.toList ++ order⟩ := .pop frame rest entry order idle
  obtain ⟨s, states, pkgs, rfl, rfl, finished⟩ := represents.finished
  obtain ⟨stack, set, onStack⟩ :=
    (finished.onStack.withPkgs pkgs).setSlot { s with newpkg := none }
  have specs : s.specs = [] := idle
  refine ⟨{ stack := stack, top := m.top - 1, pkgs := pkgs }, ?_, ⟨states, onStack.pop rfl, rfl⟩,
    stacked_step step represents.stacked, finished.entries.symm,
    loaded_step step represents.loaded, finished.listed, step.tracked represents.tracked, ?_⟩
  · rw [processTurn, if_neg finished.nonneg, finished.onStack.slot]
    change (prependNew m.pkgs s.newpkg >>= _) = _
    rw [finished.prepended]
    simp only [specs, bind, Except.bind] at set ⊢
    rw [set]
    rfl
  · have same := size_finish s.frame (states.map ProcState.frame) entry order
    exact (finished.count.trans represents.count).trans same.symm

variable (follow) in
/-- The visit of a loaded package pushes what the search reveals, or the stack is full. -/
theorem visitLoaded_cases {states : List ProcState} (onStack : m.Stacks states)
    (p : Pkg) (depth : Nat) (flags : PkgFlags)
    (agrees : follow depth = (proc.recursive && decide (depth < proc.maxDepth))) :
    (∃ stack top pkgs pushed, visitLoaded proc m p depth flags = .ok ⟨stack, top, pkgs⟩ ∧
      (⟨stack, top, pkgs⟩ : Machine).Stacks (pushed ++ states) ∧
      pushed.map ProcState.frame = (if flags.isPublic && !p.flags.isPublic && follow depth then
        [⟨p.specsRequires, none, depth, flags.clearDirect.marks⟩] else []) ∧
      (pkgs = m.pkgs ∨ flags.isPublic = true ∧ pkgs = m.pkgs.addFlags p.realname ⟨false, true⟩)) ∨
    (flags.isPublic = true ∧ m.top ≥ 256 - 1 ∧
      ∃ tok, visitLoaded proc m p depth flags = .error (.fail (.maxRecursionOn tok))) := by
  rw [visitLoaded, agrees]
  by_cases turns : (flags.isPublic && !p.flags.isPublic) = true
  · rw [if_pos turns, turns, Bool.true_and]
    have isPublic : flags.isPublic = true := (Bool.and_eq_true_iff.mp turns).1
    dsimp only
    by_cases follows : (proc.recursive && decide (depth < proc.maxDepth)) = true
    · rw [if_pos follows, if_pos follows]
      by_cases full : m.top ≥ 256 - 1
      · exact .inr ⟨isPublic, full, _, if_pos full⟩
      · rw [if_neg full]
        obtain ⟨stack, push, onStack'⟩ := (onStack.withPkgs (m.pkgs.addFlags p.realname ⟨false, true⟩)).push
          (by dsimp only; omega) p.specsRequires depth flags.clearDirect
        exact .inl ⟨_, _, _, [⟨p.specsRequires, none, depth, flags.clearDirect⟩], push, onStack', rfl,
          .inr ⟨isPublic, rfl⟩⟩
    · rw [if_neg follows, if_neg follows]
      exact .inl ⟨_, _, _, [], rfl, onStack.withPkgs _, rfl, .inr ⟨isPublic, rfl⟩⟩
  · rw [if_neg turns, Bool.eq_false_iff.mpr turns, Bool.false_and]
    exact .inl ⟨_, _, _, [], rfl, onStack, rfl, .inl rfl⟩

variable (proc) in
/-- A turn that visits a specification puts the rest of its state back first. -/
theorem processTurn_visit {s : ProcState} {states : List ProcState} {pkgs : Pkgs}
    (finished : Finished m s states pkgs entry order) {spec : PkgSpec} {next : List PkgSpec}
    (specs : s.specs = spec :: next) :
    ∃ stack, (⟨stack, m.top, pkgs⟩ : Machine).Stacks (⟨next, none, s.depth, s.flags⟩ :: states) ∧
      processTurn proc m = (do
        let m ← visit proc ⟨stack, m.top, pkgs⟩ ⟨next, none, s.depth, s.flags⟩ spec
        return .inl m) := by
  obtain ⟨stack, set, onStack⟩ :=
    (finished.onStack.withPkgs pkgs).setSlot ⟨next, none, s.depth, s.flags⟩
  refine ⟨stack, onStack, ?_⟩
  rw [processTurn, if_neg finished.nonneg, finished.onStack.slot]
  change (prependNew m.pkgs s.newpkg >>= _) = _
  rw [finished.prepended]
  simp only [specs, bind, Except.bind] at set ⊢
  rw [set]

/-- The stack bounds the depth of the top frame. -/
theorem Represents.depth_lt (represents : Represents m ⟨frame :: rest, entry, order⟩) :
    frame.depth + 1 ≤ 256 := by
  obtain ⟨states, onStack, frames⟩ := represents.onStack
  have stacked := represents.stacked.1
  have size := onStack.holds.length_le
  rw [← List.length_map ProcState.frame, ← frames, List.length_cons] at size
  omega

/-- The marks of a met package are joined once, also when it has just been made public. -/
theorem Pkgs.entry_met {pkgs pkgs' : Pkgs} {realname : S8} {node : Pkg} {marks : Marks}
    {flags : PkgFlags} (known : pkgs.entry realname = some (node, marks))
    (set : pkgs' = pkgs ∨
      flags.isPublic = true ∧ pkgs' = pkgs.addFlags realname ⟨false, true⟩) :
    (pkgs'.addFlags realname flags).entry =
      Function.update pkgs.entry realname (some (node, marks.join flags.marks)) := by
  cases set with
  | inl same => rw [same, Pkgs.entry_addFlags known]
  | inr revealed =>
      obtain ⟨isPublic, same⟩ := revealed
      have once := Pkgs.entry_addFlags known ⟨false, true⟩
      have present : (pkgs.addFlags realname ⟨false, true⟩).entry realname =
          some (node, marks.join ⟨false, true⟩) := by
        rw [once]
        exact Function.update_self ..
      rw [same, Pkgs.entry_addFlags present, once, Function.update_idem]
      congr 3
      simp [Marks.join, PkgFlags.marks, isPublic]

/-- A turn that meets a loaded package is a step of the search, or the stack is full. -/
theorem processTurn_meet (agrees : Follows.Agrees proc follow)
    (represents : Represents m ⟨frame :: rest, entry, order⟩)
    {request : PkgSpec} {later : List PkgSpec} (isNext : frame.pending = request :: later)
    {node : Pkg} {marks : Marks}
    (known : entry (pathToRealname request.name) = some (node, marks)) :
    (∃ m', processTurn proc m = .ok (.inl m') ∧
      Represents m' ⟨(packageGraph proc follow).revealed node marks frame ++
          frame.resume later none :: rest,
        Function.update entry (pathToRealname request.name) (some (node, marks.join frame.marks)),
        frame.fresh.toList ++ order⟩) ∨
    ∃ stop, processTurn proc m = .error stop ∧ TurnStops ⟨frame :: rest, entry, order⟩ stop := by
  have step : Step (packageGraph proc follow) ⟨frame :: rest, entry, order⟩ _ :=
    .meet frame rest entry order request later node marks isNext known
  have deep := represents.depth_lt
  obtain ⟨realname, contents⟩ := represents.loaded (pathToRealname request.name) node marks known
  obtain ⟨s, states, pkgs, rfl, rfl, finished⟩ := represents.finished
  obtain ⟨stack, onStack, turn⟩ := processTurn_visit proc finished isNext
  have entries := finished.entries
  rw [← entries] at known
  obtain ⟨own, found, rfl, isMarks⟩ := Pkgs.find_of_entry known
  have visited : visit proc ⟨stack, m.top, pkgs⟩ ⟨later, none, s.depth, s.flags⟩ request =
      (do
        let m ← visitLoaded proc ⟨stack, m.top, pkgs⟩ own.pkg (s.depth + 1) s.flags
        return { m with pkgs := m.pkgs.addFlags (pathToRealname request.name) s.flags }) := by
    have isLoaded : own.pkg.contents.isSome = true := contents
    simp only [visit, Pkgs.locate_known found, found, if_pos isLoaded]
  rw [turn, visited]
  cases visitLoaded_cases follow onStack own.pkg (s.depth + 1) s.flags (agrees _ deep) with
  | inr full =>
      obtain ⟨isPublic, full, tok, stops⟩ := full
      exact .inr ⟨_, by rw [stops]; rfl, .met tok isPublic (finished.length_le full)⟩
  | inl pushes =>
      obtain ⟨stack', top', pkgs', pushed, loaded, onStack', frames, set⟩ := pushes
      have ownName : own.pkg.realname = pathToRealname request.name := realname
      rw [ownName] at set
      refine .inl ⟨⟨stack', top', pkgs'.addFlags (pathToRealname request.name) s.flags⟩,
        by rw [loaded]; rfl, ⟨_, onStack'.withPkgs _, ?_⟩, stacked_step step represents.stacked, ?_,
        loaded_step step represents.loaded, ?_, step.tracked represents.tracked, ?_⟩
      · have weak : own.pkg.flags.isPublic = marks.strong := congrArg Marks.strong isMarks
        rw [List.map_append, frames, List.map_cons, weak, PkgFlags.marks_clearDirect]
        rfl
      · rw [Pkgs.entry_met known set, entries]
        rfl
      · cases set with
        | inl same => exact same ▸ finished.listed.addFlags _ _
        | inr revealed => exact revealed.2 ▸ (finished.listed.addFlags _ _).addFlags _ _
      · have count : pkgs'.count = pkgs.count := by
          cases set with
          | inl same => rw [same]
          | inr revealed => rw [revealed.2]; rfl
        have size := size_push
          ((packageGraph proc follow).filterMap_revealed own.pkg.unmarked marks s.frame) s.frame
          (states.map ProcState.frame) later none entry (Function.update entry
            (pathToRealname request.name) (some (own.pkg.unmarked, marks.join s.frame.marks))) order
        rw [Option.toList_none, List.length_nil, Nat.zero_add] at size
        exact ((count.trans finished.count).trans represents.count).trans size.symm

variable (follow) in
/-- The visit of a new package pushes what the search opens, or the program stops. -/
theorem visitNew_cases {s : ProcState} {states : List ProcState} (onStack : m.Stacks (s :: states))
    (spec : PkgSpec) (p : Pkg) (depth : Nat) (flags : PkgFlags)
    (agrees : follow depth = (proc.recursive && decide (depth < proc.maxDepth))) :
    (∃ stack top pushed pkg, loadPkg proc p spec.name = .ok pkg ∧
      checkVersion proc pkg spec = .ok () ∧
      visitNew proc m s spec p depth flags = .ok ⟨stack, top, m.pkgs.setPkg pkg.realname pkg⟩ ∧
      (⟨stack, top, m.pkgs.setPkg pkg.realname pkg⟩ : Machine).Stacks
        (pushed ++ { s with newpkg := some p.realname } :: states) ∧
      pushed.map ProcState.frame = (if follow depth then
        [⟨pkg.specsRequiresPrivate, none, depth, ⟨false, false⟩⟩,
          ⟨pkg.specsRequires, none, depth, flags.clearDirect.marks⟩] else [])) ∨
    ∃ stop, visitNew proc m s spec p depth flags = .error stop ∧
      (stop.Ordinary ∨ m.top ≥ 256 - 2 ∧ ∃ tok, stop = .fail (.maxRecursionOn tok)) := by
  obtain ⟨stack, set, onStack⟩ := onStack.setSlot { s with newpkg := some p.realname }
  rw [visitNew, set, agrees]
  cases loaded : loadPkg proc p spec.name with
  | error stop => exact .inr ⟨stop, rfl, .inl (loadPkg_ordinary proc p spec.name stop loaded)⟩
  | ok pkg =>
      cases checked : checkVersion proc pkg spec with
      | error stop =>
          refine .inr ⟨stop, ?_, .inl (checkVersion_ordinary proc pkg spec stop checked)⟩
          simp only [bind, Except.bind, checked]
      | ok _ =>
          have onStack := onStack.withPkgs (m.pkgs.setPkg pkg.realname pkg)
          simp only [bind, Except.bind, checked]
          by_cases follows : (proc.recursive && decide (depth < proc.maxDepth)) = true
          · simp only [if_pos follows]
            by_cases full : m.top ≥ 256 - 2
            · exact .inr ⟨_, if_pos full, .inr ⟨full, _, rfl⟩⟩
            · rw [if_neg full]
              obtain ⟨first, push, onStack⟩ := onStack.push (by dsimp only; omega)
                pkg.specsRequires depth flags.clearDirect
              obtain ⟨second, push', onStack⟩ := onStack.push (by dsimp only; omega)
                pkg.specsRequiresPrivate depth .zero
              refine .inl ⟨second, m.top + 1 + 1, [⟨pkg.specsRequiresPrivate, none, depth, .zero⟩,
                ⟨pkg.specsRequires, none, depth, flags.clearDirect⟩], pkg, rfl, checked, ?_,
                onStack, rfl⟩
              simp only [push]
              exact push'
          · simp only [if_neg follows]
            exact .inl ⟨stack, m.top, [], pkg, rfl, checked, rfl, onStack, rfl⟩

/-- A package that is located, loaded and flagged enters the map with these flags. -/
theorem Pkgs.entry_new {pkgs : Pkgs} {realname : S8} (missing : pkgs.find realname = none)
    {node : Pkg} (unflagged : node.flags = .zero) (flags : PkgFlags) :
    (((pkgs.locate realname).setPkg realname node).addFlags realname flags).entry =
      Function.update pkgs.entry realname (some (node, flags.marks)) := by
  have once := Pkgs.entry_loaded missing unflagged
  have present : ((pkgs.locate realname).setPkg realname node).entry realname =
      some (node, ⟨false, false⟩) := by
    rw [once]
    exact Function.update_self ..
  rw [Pkgs.entry_addFlags present, once, Function.update_idem]
  congr 3

/-- A turn that visits a new package is a step of the search, or the program stops. -/
theorem processTurn_load (agrees : Follows.Agrees proc follow)
    (represents : Represents m ⟨frame :: rest, entry, order⟩)
    {request : PkgSpec} {later : List PkgSpec} (isNext : frame.pending = request :: later)
    (unknown : entry (pathToRealname request.name) = none) :
    (∃ m' node, processTurn proc m = .ok (.inl m') ∧
      (packageGraph proc follow).Loads request node ∧
      Represents m' ⟨(packageGraph proc follow).opened node frame ++
          frame.resume later (some (pathToRealname request.name)) :: rest,
        Function.update entry (pathToRealname request.name) (some (node, frame.marks)),
        frame.fresh.toList ++ order⟩) ∨
    ∃ stop, processTurn proc m = .error stop ∧ TurnStops ⟨frame :: rest, entry, order⟩ stop := by
  have deep := represents.depth_lt
  obtain ⟨s, states, pkgs, rfl, rfl, finished⟩ := represents.finished
  obtain ⟨stack, onStack, turn⟩ := processTurn_visit proc finished isNext
  have entries := finished.entries
  have missing : pkgs.find (pathToRealname request.name) = none := by
    rw [← entries] at unknown
    exact Option.map_eq_none_iff.mp unknown
  have located := Pkgs.find_locate missing (pathToRealname request.name)
  rw [if_pos rfl] at located
  have visited : visit proc ⟨stack, m.top, pkgs⟩ ⟨later, none, s.depth, s.flags⟩ request =
      (do
        let m ← visitNew proc ⟨stack, m.top, pkgs.locate (pathToRealname request.name)⟩
          ⟨later, none, s.depth, s.flags⟩ request (freshPkg (pathToRealname request.name))
          (s.depth + 1) s.flags
        return { m with pkgs := m.pkgs.addFlags (pathToRealname request.name) s.flags }) := by
    simp only [visit, located]
    rfl
  rw [turn, visited]
  cases visitNew_cases follow (onStack.withPkgs (pkgs.locate (pathToRealname request.name))) request
    (freshPkg (pathToRealname request.name)) (s.depth + 1) s.flags (agrees _ deep) with
  | inr stops =>
      obtain ⟨stop, stops, why⟩ := stops
      refine .inr ⟨stop, by rw [stops]; rfl, ?_⟩
      rcases why with isOrdinary | ⟨full, tok, rfl⟩
      · exact .ordinary isOrdinary
      · exact .loaded tok isNext unknown (finished.length_le full)
  | inl pushes =>
      obtain ⟨stack', top', pushed, node, loaded, checked, visits, onStack', frames⟩ := pushes
      obtain ⟨kept, _, unflagged⟩ := loadPkg_kept loaded
      have realname : node.realname = pathToRealname request.name := kept
      have loads : (packageGraph proc follow).Loads request node := ⟨loaded, checked⟩
      have step : Step (packageGraph proc follow)
          ⟨s.frame :: states.map ProcState.frame, entry, order⟩ _ :=
        .load s.frame _ entry order request later node isNext unknown loads
      dsimp only at visits onStack'
      rw [realname] at visits onStack'
      refine .inl ⟨_, node, by rw [visits]; rfl, loads, ⟨_, onStack'.withPkgs _, ?_⟩,
        stacked_step step represents.stacked, ?_, loaded_step step represents.loaded, ?_,
        step.tracked represents.tracked, ?_⟩
      · rw [List.map_append, frames, List.map_cons, PkgFlags.marks_clearDirect]
        rfl
      · dsimp only
        rw [Pkgs.entry_new missing unflagged, entries]
        rfl
      · exact ((finished.listed.locate missing).setPkg _ _).addFlags _ _
      · have count := (Pkgs.locate_unknown missing).2
        have size := size_push ((packageGraph proc follow).filterMap_opened node s.frame) s.frame
          (states.map ProcState.frame) later (some (pathToRealname request.name)) entry
          (Function.update entry (pathToRealname request.name) (some (node, s.frame.marks))) order
        rw [Option.toList_some, List.length_singleton, Nat.add_comm] at size
        have before : pkgs.count + 1 = State.size _ + 1 :=
          congrArg Nat.succ (finished.count.trans represents.count)
        exact (count.trans before).trans size.symm

/-- A turn is a step of the search, or the search is finished, or the program stops. -/
theorem processTurn_cases (agrees : Follows.Agrees proc follow) {state : State S8 PkgSpec Pkg}
    (represents : Represents m state) :
    (∃ m' state', processTurn proc m = .ok (.inl m') ∧
      Step (packageGraph proc follow) state state' ∧ Represents m' state') ∨
    (state.frames = [] ∧ processTurn proc m = .ok (.inr m.pkgs)) ∨
    ∃ stop, processTurn proc m = .error stop ∧ TurnStops state stop := by
  obtain ⟨frames, entry, order⟩ := state
  cases frames with
  | nil => exact .inr (.inl ⟨rfl, processTurn_done represents⟩)
  | cons frame rest =>
      cases isNext : frame.pending with
      | nil =>
          obtain ⟨next, pops, represents'⟩ := processTurn_pop proc represents isNext
          exact .inl ⟨next, _, pops, .pop frame rest entry order isNext, represents'⟩
      | cons request later =>
          cases known : entry (pathToRealname request.name) with
          | none =>
              cases processTurn_load agrees represents isNext known with
              | inl loads =>
                  obtain ⟨next, node, loads, isLoad, represents'⟩ := loads
                  exact .inl ⟨next, _, loads,
                    .load frame rest entry order request later node isNext known isLoad,
                    represents'⟩
              | inr stops => exact .inr (.inr stops)
          | some value =>
              obtain ⟨node, marks⟩ := value
              cases processTurn_meet agrees represents isNext known with
              | inl meets =>
                  obtain ⟨next, meets, represents'⟩ := meets
                  exact .inl ⟨next, _, meets,
                    .meet frame rest entry order request later node marks isNext known,
                    represents'⟩
              | inr stops => exact .inr (.inr stops)

/-- A turn that goes on is a step of the search. -/
theorem represents_turn (agrees : Follows.Agrees proc follow) {state : State S8 PkgSpec Pkg}
    (represents : Represents m state) {m' : Machine} (turn : processBody proc m = .inl m') :
    ∃ state', Step (packageGraph proc follow) state state' ∧ Represents m' state' := by
  rw [processBody] at turn
  rcases processTurn_cases agrees represents with
    ⟨next, state', goes, step, represents'⟩ | ⟨_, returns⟩ | ⟨stop, stops, _⟩
  · rw [goes] at turn
    cases turn
    exact ⟨state', step, represents'⟩
  · rw [returns] at turn
    cases turn
  · rw [stops] at turn
    cases turn

/-- A machine that returns has finished its search. -/
theorem represents_return (agrees : Follows.Agrees proc follow) {state : State S8 PkgSpec Pkg}
    (represents : Represents m state) {pkgs : Pkgs} (turn : processBody proc m = .inr (.ok pkgs)) :
    state.frames = [] ∧ m.pkgs = pkgs := by
  rw [processBody] at turn
  rcases processTurn_cases agrees represents with
    ⟨next, state', goes, _⟩ | ⟨finished, returns⟩ | ⟨stop, stops, _⟩
  · rw [goes] at turn
    cases turn
  · rw [returns] at turn
    cases turn
    exact ⟨finished, rfl⟩
  · rw [stops] at turn
    cases turn

end

/-- Every run of the loop is a run of the search. -/
theorem represents_runs {proc : Processor} {follow : Nat → Bool}
    (agrees : Follows.Agrees proc follow) {m m' : Machine} {state : State S8 PkgSpec Pkg}
    (represents : Represents m state) (runs : Loop.Runs (processBody proc) m m') :
    ∃ state', Runs (packageGraph proc follow) state state' ∧ Represents m' state' := by
  induction runs with
  | refl => exact ⟨state, .refl, represents⟩
  | tail _ turn ih =>
      obtain ⟨state', runs, represents'⟩ := ih
      obtain ⟨state'', step, represents''⟩ := represents_turn agrees represents' turn
      exact ⟨state'', runs.tail step, represents''⟩

/-- A process that returns has run the search to its end, also from any machine on its way. -/
theorem process_returns {proc : Processor} {follow : Nat → Bool}
    (agrees : Follows.Agrees proc follow) {fuel : Nat} {specs : List PkgSpec} {pkgs : Pkgs}
    (returned : process fuel proc specs = some (.ok pkgs)) {m : Machine}
    (runs : Loop.Runs (processBody proc) (processStart specs) m) {state : State S8 PkgSpec Pkg}
    (represents : Represents m state) :
    ∃ last final, Loop.Runs (processBody proc) m last ∧
      Runs (packageGraph proc follow) state final ∧ Represents last final ∧
      final.frames = [] ∧ last.pkgs = pkgs := by
  obtain ⟨last, whole, leaves⟩ := Loop.ends_of_run returned
  have rest := runs.until whole leaves
  obtain ⟨final, searched, represents'⟩ := represents_runs agrees represents rest
  obtain ⟨finished, same⟩ := represents_return agrees represents' leaves
  exact ⟨last, final, rest, searched, represents', finished, same⟩

end UConfig
