/-
This file compares a search that stops following requests at a depth with the chains of
requests that are short enough.
-/

import UConfig.Library.GraphReach

namespace GraphSearch.Universe

variable {Vertex Request Node : Type*} {graph : Graph Vertex Request Node} {roots : List Request}

/-- A chain of this many vertices leads from a root to the vertex, both of them counted. -/
inductive Chain (world : Universe graph roots) : Nat → Vertex → Prop
  | root {request : Request} (member : request ∈ roots) : world.Chain 1 (graph.target request)
  | tail {count : Nat} {vertex other : Vertex} (chain : world.Chain count vertex)
      (edge : world.Edge vertex other) : world.Chain (count + 1) other

def Within (world : Universe graph roots) (limit : Nat) (vertex : Vertex) : Prop :=
  ∃ count ≤ limit, world.Chain count vertex

/-- The depth of a frame bounds the chains to its pending requests. -/
structure Shallow (world : Universe graph roots) (limit : Nat)
    (state : State Vertex Request Node) : Prop where
  frames : ∀ frame ∈ state.frames, frame.depth < limit ∧
    ∀ request ∈ frame.pending, world.Within (frame.depth + 1) (graph.target request)
  entries : ∀ vertex, state.Entered vertex → world.Within limit vertex

/-- The first frame is within a positive limit. -/
theorem shallow_start (world : Universe graph roots) {limit : Nat} (positive : 0 < limit) :
    world.Shallow limit (start roots) where
  frames frame member := by
    simp only [start, List.mem_singleton] at member
    subst member
    exact ⟨positive, fun request member => ⟨1, Nat.le_refl 1, .root member⟩⟩
  entries vertex entered := by simp [start, State.Entered] at entered

/-- A longer limit reaches what a shorter one does. -/
theorem Within.mono {world : Universe graph roots} {limit more : Nat} {vertex : Vertex}
    (within : world.Within limit vertex) (enough : limit ≤ more) : world.Within more vertex := by
  obtain ⟨count, bound, chain⟩ := within
  exact ⟨count, Nat.le_trans bound enough, chain⟩

/-- The frames that a visit pushes are one deeper, and so are their chains. -/
theorem Within.child {world : Universe graph roots} {limit depth : Nat} {vertex : Vertex}
    {node : Node} (within : world.Within (depth + 1) vertex)
    (known : world.node vertex = some node)
    (limited : ∀ depth, graph.follow depth = true → depth < limit) {child : Frame Vertex Request}
    (deeper : child.depth = depth + 1) (follows : graph.follow (depth + 1) = true)
    (requests : ∀ request ∈ child.pending, request ∈ graph.requests node) :
    child.depth < limit ∧
      ∀ request ∈ child.pending, world.Within (child.depth + 1) (graph.target request) := by
  rw [deeper]
  refine ⟨limited _ follows, fun request member => ?_⟩
  obtain ⟨count, bound, chain⟩ := within
  exact ⟨count + 1, by omega, chain.tail ⟨node, known, request, requests request member, rfl⟩⟩

/-- Every entered vertex was cut off at the limit, or its requests are visited or pending. -/
def CutCovers (graph : Graph Vertex Request Node) (Cut : Vertex → Prop)
    (state : State Vertex Request Node) : Prop :=
  ∀ vertex value marks, state.entry vertex = some (value, marks) → Cut vertex ∨
    ∀ request ∈ graph.requests value,
      Owed graph (Covered fun _ => True) (fun _ => True) state request

/-- A finished search misses no short chain when the cuts do not matter. -/
theorem entered_of_within {world : Universe graph roots} {Cut : Vertex → Prop} {limit : Nat}
    {state : State Vertex Request Node} (sound : world.Sound state)
    (rootsEntered : ∀ request ∈ roots, state.Entered (graph.target request))
    (covers : CutCovers graph Cut state) (finished : state.frames = [])
    (harmless : ∀ vertex, Cut vertex → (∃ count < limit, world.Chain count vertex) →
      ∀ other, world.Edge vertex other → state.Entered other)
    {vertex : Vertex} (within : world.Within limit vertex) : state.Entered vertex := by
  obtain ⟨count, bound, chain⟩ := within
  induction chain with
  | root member => exact rootsEntered _ member
  | @tail count vertex other chain edge ih =>
      obtain ⟨value, marks, known⟩ := ih (by omega)
      rcases covers vertex value marks known with cut | owed
      · exact harmless vertex cut ⟨count, by omega, chain⟩ other edge
      · obtain ⟨value', node, request, member, rfl⟩ := edge
        rw [(sound.entries _ value marks known).node] at node
        cases node
        obtain ⟨value', marks', known', _⟩ := (owed request member).settled finished
        exact ⟨value', marks', known'⟩

variable [DecidableEq Vertex]

/-- A step that only follows below the limit stays within it. -/
theorem shallow_step {world : Universe graph roots} {limit : Nat}
    (limited : ∀ depth, graph.follow depth = true → depth < limit)
    {state next : State Vertex Request Node} (sound : world.Sound state)
    (shallow : world.Shallow limit state) (step : Step graph state next) :
    world.Shallow limit next where
  frames frame member := by
    cases step.frame_origin member with
    | kept member => exact shallow.frames frame member
    | @resumed top rest _ later frames isNext fresh =>
        have isTop : top ∈ state.frames := frames ▸ List.mem_cons_self
        obtain ⟨inside, pending⟩ := shallow.frames top isTop
        refine ⟨inside, ?_⟩
        intro request waiting
        exact pending request (isNext ▸ List.mem_cons_of_mem _ waiting)
    | @pushed top _ request _ node _ _ frames isNext resolved known isChild =>
        have isTop : top ∈ state.frames := frames ▸ List.mem_cons_self
        have waiting : request ∈ top.pending := isNext ▸ List.mem_cons_self
        have within := (shallow.frames top isTop).2 request waiting
        have node' := ((world.sound_step sound step).entries _ _ _ known).node
        exact within.child node' limited isChild.deeper isChild.follows isChild.requests
  entries vertex entered := by
    cases step.visits_of_entered entered with
    | inl before => exact shallow.entries vertex before
    | inr now =>
        obtain ⟨request, _, ⟨top, rest, later, frames, isNext, _⟩, target⟩ := now
        obtain ⟨inside, pending⟩ := shallow.frames top (frames ▸ List.mem_cons_self)
        have within := pending request (isNext ▸ List.mem_cons_self)
        exact target ▸ within.mono inside

/-- A step that loads a vertex at the limit cuts it off, and every other load follows it. -/
theorem cutCovers_step {world : Universe graph roots} {Cut : Vertex → Prop} {limit : Nat}
    (limited : ∀ depth, graph.follow depth = true ↔ depth < limit)
    {state next : State Vertex Request Node} (shallow : world.Shallow limit state)
    (cuts : ∀ request, state.Visits request limit → ¬ state.Entered (graph.target request) →
      Cut (graph.target request))
    (covers : CutCovers graph Cut state) (step : Step graph state next) :
    CutCovers graph Cut next := by
  intro vertex value marks known
  have keep : ∀ marks', state.entry vertex = some (value, marks') → Cut vertex ∨
      ∀ request ∈ graph.requests value,
        Owed graph (Covered fun _ => True) (fun _ => True) next request :=
    fun marks' known' => (covers vertex value marks' known').imp id fun owed request member =>
      owed_step step (fun _ _ _ _ held => held) (owed request member)
  cases step.entry_origin known with
  | kept old => exact keep marks old
  | met frames isNext old pushed => exact keep _ old
  | @loaded top rest request later _ frames isNext unknown loads pushed =>
      by_cases follows : graph.follow (top.depth + 1) = true
      · right
        intro other member
        obtain ⟨child, opened, pending⟩ := graph.opened_covers value top follows member
        exact .inr ⟨child, pushed opened, trivial, pending⟩
      · left
        have inside := (shallow.frames top (frames ▸ List.mem_cons_self)).1
        have atLimit : limit = top.depth + 1 := by
          rw [limited] at follows
          omega
        apply cuts request ⟨top, rest, later, frames, isNext, atLimit⟩
        intro entered
        obtain ⟨value', marks', known'⟩ := entered
        rw [unknown] at known'
        cases known'

end GraphSearch.Universe
