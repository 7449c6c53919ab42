/-
This file proves that a search of an acyclic graph orders every vertex before its targets.
-/

import UConfig.Library.GraphReach

namespace GraphSearch.Universe

variable {Vertex Request Node : Type*} {graph : Graph Vertex Request Node} {roots : List Request}

/-- No chain of requests leads back to where it starts. -/
def Acyclic (world : Universe graph roots) : Prop :=
  ∀ vertex, ¬ Relation.TransGen world.Edge vertex vertex

/-- A graph whose edges all lead to larger ranks has no cycle. -/
theorem acyclic_of_rank {world : Universe graph roots} (rank : Vertex → Nat)
    (rises : ∀ vertex other, world.Edge vertex other → rank vertex < rank other) :
    world.Acyclic := by
  have climbs : ∀ vertex other, Relation.TransGen world.Edge vertex other →
      rank vertex < rank other := by
    intro vertex other path
    induction path with
    | single edge => exact rises _ _ edge
    | tail _ edge ih => exact Nat.lt_trans ih (rises _ _ edge)
  intro vertex cycle
  exact Nat.lt_irrefl _ (climbs vertex vertex cycle)

/-- A frame above an unfinished vertex only works for that vertex. -/
def WorksFor (world : Universe graph roots) (above below : Frame Vertex Request) : Prop :=
  ∀ vertex ∈ below.fresh,
    (∀ request ∈ above.pending, Relation.TransGen world.Edge vertex (graph.target request)) ∧
    ∀ other ∈ above.fresh, Relation.TransGen world.Edge vertex other

/-- Every target of an unfinished vertex is done or still pending above it. -/
def Guarded (world : Universe graph roots) (Done : Vertex → Prop) :
    List (Frame Vertex Request) → List Request → Prop
  | [], _ => True
  | frame :: rest, above =>
      (∀ vertex ∈ frame.fresh, ∀ other, world.Edge vertex other →
        Done other ∨ ∃ request ∈ above, graph.target request = other) ∧
      world.Guarded Done rest (above ++ frame.pending)

/-- Every vertex of the order stands before all of its targets. -/
def Sorted (world : Universe graph roots) (order : List Vertex) : Prop :=
  ∀ vertex after, vertex :: after <:+ order → ∀ other, world.Edge vertex other → other ∈ after

/-- More vertices that are done guard the same frames. -/
theorem Guarded.mono {world : Universe graph roots} {Done Done' : Vertex → Prop}
    {frames : List (Frame Vertex Request)} {above above' : List Request}
    (guarded : world.Guarded Done frames above) (grows : ∀ vertex, Done vertex → Done' vertex)
    (covered : ∀ request ∈ above, Done' (graph.target request) ∨ request ∈ above') :
    world.Guarded Done' frames above' := by
  induction frames generalizing above above' with
  | nil => trivial
  | cons frame rest ih =>
      refine ⟨fun vertex fresh other edge => ?_, ih guarded.2 fun request member => ?_⟩
      · rcases guarded.1 vertex fresh other edge with done | ⟨request, member, rfl⟩
        · exact .inl (grows other done)
        · exact (covered request member).imp id fun pending => ⟨request, pending, rfl⟩
      · rcases List.mem_append.mp member with member | member
        · exact (covered request member).imp id (List.mem_append_left _)
        · exact .inr (List.mem_append_right _ member)

/-- Frames without a fresh vertex only add to the requests above. -/
theorem Guarded.above {world : Universe graph roots} {Done : Vertex → Prop}
    {pushed frames : List (Frame Vertex Request)} {above : List Request}
    (stale : ∀ frame ∈ pushed, frame.fresh = none)
    (guarded : world.Guarded Done frames (above ++ pushed.flatMap Frame.pending)) :
    world.Guarded Done (pushed ++ frames) above := by
  induction pushed generalizing above with
  | nil => simpa using guarded
  | cons frame pushed ih =>
      refine ⟨fun vertex fresh => ?_, ih (fun other member => stale other (by simp [member])) ?_⟩
      · rw [stale frame List.mem_cons_self] at fresh
        cases fresh
      · simpa [List.append_assoc] using guarded

/-- The invariant of the order relates the frames to what is already in the order. -/
structure Ordering (world : Universe graph roots) (state : State Vertex Request Node) : Prop where
  nested : state.frames.Pairwise world.WorksFor
  guarded : world.Guarded state.Entered state.frames []
  sorted : world.Sorted state.order

/-- A search that has not begun is in order. -/
theorem ordering_start (world : Universe graph roots) : world.Ordering (start roots) where
  nested := List.pairwise_singleton ..
  guarded := ⟨fun vertex fresh => by simp at fresh, trivial⟩
  sorted vertex after suffix := by simp [start] at suffix

/-- The finished vertex of the top frame stands before its targets. -/
theorem sorted_finish {world : Universe graph roots} (acyclic : world.Acyclic)
    {frame : Frame Vertex Request} {rest : List (Frame Vertex Request)}
    {entry : Vertex → Option (Node × Marks)} {order : List Vertex}
    (tracked : Tracked ⟨frame :: rest, entry, order⟩)
    (ordering : world.Ordering ⟨frame :: rest, entry, order⟩) :
    world.Sorted (frame.fresh.toList ++ order) := by
  cases fresh : frame.fresh with
  | none => exact ordering.sorted
  | some finished =>
      intro vertex after suffix other edge
      rcases List.suffix_cons_iff.mp suffix with same | suffix
      case inr => exact ordering.sorted vertex after suffix other edge
      obtain ⟨rfl, rfl⟩ := List.cons.inj same
      have entered : (⟨frame :: rest, entry, after⟩ : State Vertex Request Node).Entered other := by
        rcases ordering.guarded.1 vertex fresh other edge with done | ⟨request, member, _⟩
        · exact done
        · cases member
      rcases (tracked.entered other).mp entered with unfinished | member
      case inr => exact member
      -- A target that is unfinished too would close a cycle through the finished vertex.
      exfalso
      simp only [State.unfinished, unfinished_cons, fresh, Option.toList_some,
        List.singleton_append, List.mem_cons, List.mem_filterMap] at unfinished
      rcases unfinished with rfl | ⟨below, member, fresh'⟩
      · exact acyclic _ (.single edge)
      · have works := (List.pairwise_cons.mp ordering.nested).1 below member other fresh'
        exact acyclic vertex (.head edge (works.2 vertex fresh))

/-- A frame pushed for a pending request works for whatever the request's frame works for. -/
theorem worksFor_child {world : Universe graph roots} {frame below child : Frame Vertex Request}
    {request : Request} {node : Node} (works : world.WorksFor frame below)
    (member : request ∈ frame.pending) (known : world.node (graph.target request) = some node)
    (stale : child.fresh = none)
    (requests : ∀ other ∈ child.pending, other ∈ graph.requests node) :
    world.WorksFor child below := by
  intro vertex fresh
  refine ⟨fun other pending => ?_, fun other fresh' => ?_⟩
  · exact ((works vertex fresh).1 request member).tail
      ⟨node, known, other, requests other pending, rfl⟩
  · rw [stale] at fresh'
    cases fresh'

/-- The frame of a loaded vertex still works for the frame below it. -/
theorem worksFor_resume {world : Universe graph roots} {frame below : Frame Vertex Request}
    {request : Request} {later : List Request} (works : world.WorksFor frame below)
    (next : frame.pending = request :: later) {fresh : Option Vertex}
    (loaded : ∀ vertex ∈ fresh, vertex = graph.target request) :
    world.WorksFor (frame.resume later fresh) below := by
  intro vertex fresh'
  have works := works vertex fresh'
  refine ⟨fun other member => works.1 other ?_, fun other member => ?_⟩
  · rw [next]
    exact List.mem_cons_of_mem _ member
  · rw [loaded other member]
    exact works.1 request (by rw [next]; exact List.mem_cons_self)

/-- A visit pushes frames that work for everything the visiting frame works for. -/
theorem nested_visit {world : Universe graph roots} {frame : Frame Vertex Request}
    {rest pushed : List (Frame Vertex Request)} {request : Request} {later : List Request}
    {fresh : Option Vertex} {node : Node}
    (nested : (frame :: rest).Pairwise world.WorksFor) (next : frame.pending = request :: later)
    (known : world.node (graph.target request) = some node)
    (loaded : ∀ vertex ∈ fresh, vertex = graph.target request)
    (children : ∀ child ∈ pushed, graph.Child node frame child) :
    (pushed ++ frame.resume later fresh :: rest).Pairwise world.WorksFor := by
  obtain ⟨works, nested⟩ := List.pairwise_cons.mp nested
  refine List.pairwise_append.mpr ⟨?_, List.pairwise_cons.mpr ⟨?_, nested⟩, ?_⟩
  · refine List.pairwise_of_forall_mem_list fun above _ below member vertex fresh' => ?_
    rw [(children below member).fresh] at fresh'
    cases fresh'
  · exact fun below member => worksFor_resume (works below member) next loaded
  · intro child member below position
    have isChild := children child member
    rcases List.mem_cons.mp position with rfl | position
    case inr =>
      have top : request ∈ frame.pending := by rw [next]; exact List.mem_cons_self
      exact worksFor_child (works below position) top known isChild.fresh isChild.requests
    -- The visiting frame itself holds at most the target, whose requests the child visits.
    intro vertex fresh'
    rw [loaded vertex fresh']
    refine ⟨fun other pending => .single ⟨node, known, other, isChild.requests other pending, rfl⟩,
      fun other stale => ?_⟩
    rw [isChild.fresh] at stale
    cases stale

/-- A visit guards the frames below it if it guards the vertex that it loads. -/
theorem guarded_visit {world : Universe graph roots} {Done Done' : Vertex → Prop}
    {frame : Frame Vertex Request} {rest pushed : List (Frame Vertex Request)} {request : Request}
    {later : List Request} {fresh : Option Vertex}
    (guarded : world.Guarded Done (frame :: rest) []) (next : frame.pending = request :: later)
    (grows : ∀ vertex, Done vertex → Done' vertex) (visited : Done' (graph.target request))
    (stale : ∀ child ∈ pushed, child.fresh = none)
    (covered : ∀ vertex ∈ fresh, ∀ other, world.Edge vertex other →
      ∃ child ∈ pushed, ∃ pending ∈ child.pending, graph.target pending = other) :
    world.Guarded Done' (pushed ++ frame.resume later fresh :: rest) [] := by
  refine Guarded.above stale ⟨fun vertex fresh' other edge => ?_, guarded.2.mono grows ?_⟩
  · obtain ⟨child, member, pending, asked, rfl⟩ := covered vertex fresh' other edge
    exact .inr ⟨pending, List.mem_flatMap.mpr ⟨child, member, asked⟩, rfl⟩
  · intro other member
    rw [List.nil_append, next] at member
    rcases List.mem_cons.mp member with rfl | member
    · exact .inl visited
    · exact .inr (List.mem_append_right _ member)

variable [DecidableEq Vertex]

/-- Every step of an unlimited search of an acyclic graph keeps the order. -/
theorem ordering_step {world : Universe graph roots} (acyclic : world.Acyclic)
    (unlimited : ∀ depth, graph.follow depth = true) {state next : State Vertex Request Node}
    (tracked : Tracked state) (sound : world.Sound state) (ordering : world.Ordering state)
    (step : Step graph state next) : world.Ordering next := by
  have grows : ∀ vertex, state.Entered vertex → next.Entered vertex := fun _ => step.entered
  cases step with
  | pop frame rest entry order idle =>
      refine ⟨ordering.nested.of_cons, ordering.guarded.2.mono grows ?_,
        sorted_finish acyclic tracked ordering⟩
      intro request member
      rw [idle] at member
      cases member
  | meet frame rest entry order request later node marks next' known =>
      have node' := (sound.entries _ _ _ known).node
      refine ⟨?_, ?_, sorted_finish acyclic tracked ordering⟩
      · exact nested_visit ordering.nested next' node' (fun vertex fresh => by cases fresh)
          fun child member => Graph.mem_revealed member
      · exact guarded_visit ordering.guarded next' grows ⟨node, _, Function.update_self ..⟩
          (fun child member => (Graph.mem_revealed member).fresh)
          fun vertex fresh => by cases fresh
  | load frame rest entry order request later node next' unknown loads =>
      have top : request ∈ frame.pending := by rw [next']; exact List.mem_cons_self
      have occurs := (sound.frames frame List.mem_cons_self).occurs request top
      have node' := world.resolves request occurs node loads
      refine ⟨?_, ?_, sorted_finish acyclic tracked ordering⟩
      · exact nested_visit ordering.nested next' node' (fun vertex fresh => by cases fresh; rfl)
          fun child member => Graph.mem_opened member
      · refine guarded_visit ordering.guarded next' grows ⟨node, _, Function.update_self ..⟩
          (fun child member => (Graph.mem_opened member).fresh) ?_
        rintro vertex ⟨⟩ other ⟨value, known, request', asked, rfl⟩
        rw [node'] at known
        cases known
        obtain ⟨child, opened, pending⟩ := graph.opened_covers node frame (unlimited _) asked
        exact ⟨child, opened, request', pending, rfl⟩

/-- An unlimited search of an acyclic graph stays in order. -/
theorem ordering_runs {world : Universe graph roots} (acyclic : world.Acyclic)
    (unlimited : ∀ depth, graph.follow depth = true) {state : State Vertex Request Node}
    (runs : Runs graph (start roots) state) : world.Ordering state := by
  induction runs with
  | refl => exact world.ordering_start
  | tail runs step ih =>
      exact ordering_step acyclic unlimited (Runs.tracked runs) (world.sound_runs runs) ih step

end GraphSearch.Universe
