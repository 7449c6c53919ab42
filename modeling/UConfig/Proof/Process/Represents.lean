/-
This file relates the machine of the loop to the abstract search of the package graph.
-/

import UConfig.Proof.Process.PkgSet
import UConfig.Proof.Process.Load

namespace UConfig

open GraphSearch

/-- The specifications of packages are the requests of a graph between real names. -/
def packageGraph (proc : Processor) (follow : Nat → Bool) : Graph S8 PkgSpec Pkg where
  target spec := pathToRealname spec.name
  strong p := p.specsRequires
  weak p := p.specsRequiresPrivate
  Loads spec p := loadPkg proc (freshPkg (pathToRealname spec.name)) spec.name = .ok p ∧
    checkVersion proc p spec = .ok ()
  follow := follow

def ProcState.frame (s : ProcState) : Frame S8 PkgSpec :=
  ⟨s.specs, s.newpkg, s.depth, s.flags.marks⟩

/-- The used slots hold these states, and no other slot remembers a new package. -/
structure Machine.Stacks (m : Machine) (states : List ProcState) : Prop where
  holds : SlotStack.Holds m.stack m.top states
  stale : ∀ index s, m.top < index → SlotStack.read m.stack index = some s → s.newpkg = none

namespace Machine.Stacks

variable {m : Machine} {s : ProcState} {states : List ProcState}

/-- The top slot has the top state. -/
theorem slot (onStack : m.Stacks (s :: states)) : m.slot m.top = .ok s := by
  rw [Machine.slot, onStack.holds.read_top]

/-- The packages do not matter to the stack. -/
theorem withPkgs (onStack : m.Stacks states) (pkgs : Pkgs) : ({ m with pkgs := pkgs }).Stacks states :=
  ⟨onStack.holds, onStack.stale⟩

/-- The top state can be replaced. -/
theorem setSlot (onStack : m.Stacks (s :: states)) (s' : ProcState) :
    ∃ stack, m.setSlot m.top s' = .ok { m with stack := stack } ∧
      ({ m with stack := stack }).Stacks (s' :: states) := by
  have size := onStack.holds.size
  rw [List.length_cons] at size
  obtain ⟨stack, written⟩ :=
    SlotStack.write_isSome m.stack m.top s' (by omega) onStack.holds.top_lt
  refine ⟨stack, by rw [Machine.setSlot, written], onStack.holds.replace written, ?_⟩
  intro index other above read
  dsimp only at above read
  rw [SlotStack.write_other written (by omega)] at read
  exact onStack.stale index other above read

/-- The top state can be forgotten once its new package is in the list. -/
theorem pop (onStack : m.Stacks (s :: states)) (settled : s.newpkg = none) :
    ({ m with top := m.top - 1 }).Stacks states := by
  refine ⟨onStack.holds.pop, ?_⟩
  intro index other above read
  dsimp only at above read
  by_cases isTop : index = m.top
  · rw [isTop, onStack.holds.read_top] at read
    cases read
    exact settled
  · exact onStack.stale index other (by omega) read

/-- A state can be pushed while the stack has room. -/
theorem push (onStack : m.Stacks states) (room : m.top < 255) (specs : List PkgSpec)
    (depth : Nat) (flags : PkgFlags) :
    ∃ stack, m.push specs depth flags = .ok { m with stack := stack, top := m.top + 1 } ∧
      ({ m with stack := stack, top := m.top + 1 }).Stacks (⟨specs, none, depth, flags⟩ :: states) := by
  have size := onStack.holds.size
  obtain ⟨stack, written⟩ := SlotStack.write_isSome m.stack (m.top + 1)
    ⟨specs, none, depth, flags⟩ (by omega) (by omega)
  have present : ∃ old, SlotStack.read m.stack (m.top + 1) = some old := by
    have inside : (m.top + 1).toNat < 256 := by omega
    refine ⟨m.stack[(m.top + 1).toNat], ?_⟩
    rw [SlotStack.read, if_pos (by omega), Vector.getElem?_eq_getElem inside]
  obtain ⟨old, read⟩ := present
  have fresh := onStack.stale (m.top + 1) old (by omega) read
  refine ⟨stack, ?_, onStack.holds.push written, ?_⟩
  · rw [Machine.push, Machine.slot, read]
    change (m.setSlot (m.top + 1) ⟨specs, old.newpkg, depth, flags⟩ >>= _) = _
    rw [fresh, Machine.setSlot, written]
    rfl
  · intro index other above read'
    dsimp only at above read'
    rw [SlotStack.write_other written (by omega)] at read'
    exact onStack.stale index other (by omega) read'

end Machine.Stacks

/-- A frame is never deeper than the number of frames below it. -/
def Stacked : List (Frame S8 PkgSpec) → Prop
  | [] => True
  | frame :: rest => frame.depth ≤ rest.length ∧ Stacked rest

/-- The machine represents a state of the search of the package graph. -/
structure Represents (m : Machine) (state : State S8 PkgSpec Pkg) : Prop where
  onStack : ∃ states, m.Stacks states ∧ state.frames = states.map ProcState.frame
  stacked : Stacked state.frames
  entries : state.entry = m.pkgs.entry
  loaded : ∀ realname pkg marks, state.entry realname = some (pkg, marks) →
    pkg.realname = realname ∧ pkg.contents.isSome
  listed : m.pkgs.Listed state.order
  tracked : Tracked state
  count : m.pkgs.count = state.unfinished.length + state.order.length

/-- A package of the set is an entry of the search. -/
theorem Represents.entry_of_find {m : Machine} {state : State S8 PkgSpec Pkg}
    (represents : Represents m state) {realname : S8} {node : PkgNode}
    (found : m.pkgs.find realname = some node) :
    state.entry realname = some (node.pkg.unmarked, node.pkg.flags.marks) := by
  rw [represents.entries, Pkgs.entry, found]
  rfl

/-- An entry of the search is a package of the set. -/
theorem Represents.find_of_entry {m : Machine} {state : State S8 PkgSpec Pkg}
    (represents : Represents m state) {realname : S8} {pkg : Pkg} {marks : Marks}
    (known : state.entry realname = some (pkg, marks)) :
    ∃ node, m.pkgs.find realname = some node ∧ node.pkg.unmarked = pkg ∧
      node.pkg.flags.marks = marks := by
  rw [represents.entries] at known
  exact Pkgs.find_of_entry known

/-- The search has entered exactly the packages of the set. -/
theorem Represents.entered_iff {m : Machine} {state : State S8 PkgSpec Pkg}
    (represents : Represents m state) (realname : S8) :
    state.Entered realname ↔ ∃ node, m.pkgs.find realname = some node := by
  constructor
  · intro entered
    obtain ⟨pkg, marks, known⟩ := entered
    obtain ⟨node, found, _⟩ := represents.find_of_entry known
    exact ⟨node, found⟩
  · intro present
    obtain ⟨node, found⟩ := present
    exact ⟨_, _, represents.entry_of_find found⟩

/-- The next turn of the machine visits this specification at this depth. -/
def Machine.Visits (m : Machine) (spec : PkgSpec) (depth : Nat) : Prop :=
  ∃ s next, SlotStack.read m.stack m.top = some s ∧ s.specs = spec :: next ∧ depth = s.depth + 1

/-- The machine visits what the search visits. -/
theorem Represents.visits_iff {m : Machine} {state : State S8 PkgSpec Pkg}
    (represents : Represents m state) (spec : PkgSpec) (depth : Nat) :
    m.Visits spec depth ↔ state.Visits spec depth := by
  obtain ⟨states, onStack, frames⟩ := represents.onStack
  constructor
  · intro visits
    obtain ⟨s, next, read, specs, deep⟩ := visits
    cases states with
    | nil =>
        have empty := onStack.holds.nil_iff.mp rfl
        rw [SlotStack.read, if_neg (by omega)] at read
        cases read
    | cons top states =>
        rw [onStack.holds.read_top] at read
        have same := Option.some.inj read
        subst same
        exact ⟨top.frame, states.map ProcState.frame, next, frames, specs, deep⟩
  · intro visits
    obtain ⟨frame, rest, later, isFrames, pending, deep⟩ := visits
    cases states with
    | nil =>
        rw [isFrames] at frames
        cases frames
    | cons top states =>
        rw [isFrames] at frames
        obtain ⟨rfl, -⟩ := List.cons.inj frames
        exact ⟨top, later, onStack.holds.read_top, pending, deep⟩

/-- The machine starts as the search starts. -/
theorem represents_start (specs : List PkgSpec) :
    Represents (processStart specs) (start specs) where
  onStack := by
    refine ⟨[⟨specs, none, 0, ⟨true, true⟩⟩], ⟨?_, ?_⟩, rfl⟩
    · exact (SlotStack.Holds.empty (Vector.replicate 256 ProcState.zero)).push
        (show SlotStack.write _ _ _ = some (processStart specs).stack from rfl)
    · intro index s above read
      have inside : index.toNat < 256 := by
        by_contra outside
        rw [SlotStack.read, if_pos (by simp only [processStart] at above; omega),
          Vector.getElem?_eq_none (by omega)] at read
        cases read
      rw [SlotStack.read, if_pos (by simp only [processStart] at above; omega),
        Vector.getElem?_eq_getElem inside] at read
      have zero : (processStart specs).stack[index.toNat] = ProcState.zero := by
        simp only [processStart] at above ⊢
        rw [Vector.getElem_set_ne _ _ (by omega), Vector.getElem_replicate]
      rw [← Option.some.inj read, zero]
      rfl
  stacked := ⟨Nat.le_refl 0, trivial⟩
  entries := rfl
  loaded realname pkg marks known := by cases known
  listed := Pkgs.listed_empty
  tracked := tracked_start specs
  count := rfl

end UConfig
