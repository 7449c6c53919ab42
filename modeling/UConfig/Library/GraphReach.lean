/-
This file proves that a finished search has found exactly the reachable vertices.
-/

import UConfig.Library.GraphSearch

namespace GraphSearch

variable {Vertex Request Node : Type*}

/-- The property of marks that a visit by such a frame leaves behind. -/
def Covered (Debtor : Marks → Prop) : Request → Node → Marks → Prop :=
  fun _ _ marks => Debtor marks

/-- Every request of an entered vertex is visited or pending. -/
structure Covers (graph : Graph Vertex Request Node)
    (state : State Vertex Request Node) : Prop where
  requests : ∀ request, Source graph [] state request →
    Owed graph (Covered fun _ => True) (fun _ => True) state request
  strong : ∀ vertex value marks, state.entry vertex = some (value, marks) →
    marks.strong = true → ∀ request ∈ graph.strong value,
      Owed graph (Covered fun marks => marks.strong = true) (fun marks => marks.strong = true)
        state request

/-- At the start only the roots have been asked for, and they wait. -/
theorem covers_start (graph : Graph Vertex Request Node) (roots : List Request) :
    Covers graph (start roots) where
  requests request source := by simp [start, Source] at source
  strong vertex value marks known := by simp [start] at known

section

variable [DecidableEq Vertex]

/-- A debt in marks survives every step. -/
theorem owed_step {graph : Graph Vertex Request Node}
    {state next : State Vertex Request Node} (step : Step graph state next)
    {Debtor : Marks → Prop}
    (grows : ∀ marks marks' : Marks, (marks.root = true → marks'.root = true) →
      (marks.strong = true → marks'.strong = true) → Debtor marks → Debtor marks')
    {request : Request} (owed : Owed graph (Covered Debtor) Debtor state request) :
    Owed graph (Covered Debtor) Debtor next request :=
  step.owed (fun _ _ _ _ root strong held => grows _ _ root strong held)
    (fun _ _ _ _ _ _ _ _ debt _ root strong => grows _ _ root strong debt) owed

/-- The roots are visited and marked whatever the depth limit is. -/
theorem roots_owed {graph : Graph Vertex Request Node} {roots : List Request}
    {state : State Vertex Request Node} (runs : Runs graph (start roots) state)
    {request : Request} (member : request ∈ roots) :
    Owed graph (Covered fun marks => marks.root = true ∧ marks.strong = true)
      (fun marks => marks.root = true ∧ marks.strong = true) state request := by
  induction runs with
  | refl =>
      exact .inr ⟨⟨roots, none, 0, ⟨true, true⟩⟩, List.mem_singleton_self _, ⟨rfl, rfl⟩, member⟩
  | tail _ step ih =>
      exact owed_step step (fun _ _ root strong held => ⟨root held.1, strong held.2⟩) ih

/-- Without a depth limit a step keeps every request settled or pending when the visited
request is settled by its visit. -/
theorem sources_step {graph : Graph Vertex Request Node} {roots : List Request}
    (unlimited : ∀ depth, graph.follow depth = true) {state next : State Vertex Request Node}
    (step : Step graph state next) {Settled : Request → Node → Marks → Prop}
    (grows : ∀ request node marks marks', (marks.root = true → marks'.root = true) →
      (marks.strong = true → marks'.strong = true) →
      Settled request node marks → Settled request node marks')
    (settles : ∀ frame rest request later node marks, state.frames = frame :: rest →
      frame.pending = request :: later → next.entry (graph.target request) = some (node, marks) →
      Settled request node marks)
    (owed : ∀ request, Source graph roots state request →
      Owed graph Settled (fun _ => True) state request)
    (request : Request) (source : Source graph roots next request) :
    Owed graph Settled (fun _ => True) next request := by
  have keep : Source graph roots state request → Owed graph Settled (fun _ => True) next request :=
    fun before => step.owed grows
      (fun frame rest visited later node marks frames isNext _ known _ _ =>
        settles frame rest visited later node marks frames isNext known) (owed request before)
  rcases source with isRoot | ⟨vertex, value, marks, known, member⟩
  · exact keep (.inl isRoot)
  · cases step.entry_origin known with
    | kept old => exact keep (.inr ⟨vertex, value, marks, old, member⟩)
    | met frames isNext old pushed => exact keep (.inr ⟨_, value, _, old, member⟩)
    | @loaded top _ _ _ _ frames isNext unknown loads pushed =>
        obtain ⟨child, opened, pending⟩ := graph.opened_covers value top (unlimited _) member
        exact .inr ⟨child, pushed opened, trivial, pending⟩

/-- Without a depth limit a step keeps every request visited or pending. -/
theorem covers_step {graph : Graph Vertex Request Node}
    (unlimited : ∀ depth, graph.follow depth = true)
    {state next : State Vertex Request Node} (covers : Covers graph state)
    (step : Step graph state next) : Covers graph next where
  requests := sources_step unlimited step (fun _ _ _ _ _ _ held => held)
    (fun _ _ _ _ _ _ _ _ _ => trivial) covers.requests
  strong vertex value marks known strong request member := by
    have keep : ∀ marks', state.entry vertex = some (value, marks') → marks'.strong = true →
        Owed graph (Covered fun marks => marks.strong = true) (fun marks => marks.strong = true)
          next request :=
      fun marks' known' strong' => owed_step step (fun _ _ _ grows held => grows held)
        (covers.strong vertex value marks' known' strong' request member)
    cases step.entry_origin known with
    | kept old => exact keep marks old strong
    | @met top _ _ _ _ before frames isNext old pushed =>
        by_cases already : before.strong = true
        · exact keep before old already
        · -- The vertex turns strong here, so its strong requests are pending again.
          rw [Marks.join_strong, Bool.or_eq_true] at strong
          obtain ⟨child, revealed, mark, pending⟩ :=
            graph.revealed_strong value before top (unlimited _)
              (strong.resolve_left already) (by simpa using already) member
          exact .inr ⟨child, pushed revealed, mark, pending⟩
    | @loaded top _ _ _ _ frames isNext unknown loads pushed =>
        obtain ⟨child, opened, mark, pending⟩ :=
          graph.opened_strong value top (unlimited _) strong member
        exact .inr ⟨child, pushed opened, mark, pending⟩

/-- A search without a limit always covers what it has to visit. -/
theorem covers_runs {roots : List Request} {graph : Graph Vertex Request Node}
    (unlimited : ∀ depth, graph.follow depth = true)
    {state : State Vertex Request Node} (runs : Runs graph (start roots) state) :
    Covers graph state := by
  induction runs with
  | refl => exact covers_start graph roots
  | tail _ step ih => exact covers_step unlimited ih step

end

/-- The universe gives every vertex one node, and every request that occurs loads that node. -/
structure Universe (graph : Graph Vertex Request Node) (roots : List Request) where
  node : Vertex → Option Node
  resolves : ∀ request, (request ∈ roots ∨
      ∃ vertex value, node vertex = some value ∧ request ∈ graph.requests value) →
    ∀ value, graph.Loads request value → node (graph.target request) = some value

namespace Universe

variable {graph : Graph Vertex Request Node} {roots : List Request}

/-- A vertex requests another one by a request of either kind. -/
def Edge (world : Universe graph roots) (vertex other : Vertex) : Prop :=
  ∃ value, world.node vertex = some value ∧
    ∃ request ∈ graph.requests value, graph.target request = other

/-- A vertex requests another one by a strong request. -/
def StrongEdge (world : Universe graph roots) (vertex other : Vertex) : Prop :=
  ∃ value, world.node vertex = some value ∧
    ∃ request ∈ graph.strong value, graph.target request = other

/-- A path of edges leads from a root to the vertex. -/
def Reachable (world : Universe graph roots) (vertex : Vertex) : Prop :=
  ∃ request ∈ roots, Relation.ReflTransGen world.Edge (graph.target request) vertex

/-- A path of strong edges leads from a root to the vertex. -/
def StrongReachable (world : Universe graph roots) (vertex : Vertex) : Prop :=
  ∃ request ∈ roots, Relation.ReflTransGen world.StrongEdge (graph.target request) vertex

/-- A strong request is a request. -/
theorem StrongReachable.reachable {world : Universe graph roots} {vertex : Vertex}
    (reachable : world.StrongReachable vertex) : world.Reachable vertex := by
  obtain ⟨request, member, path⟩ := reachable
  have edges : ∀ first second, world.StrongEdge first second → world.Edge first second := by
    rintro first second ⟨value, isNode, other, isStrong, target⟩
    exact ⟨value, isNode, other, List.mem_append_left _ isStrong, target⟩
  exact ⟨request, member, Relation.ReflTransGen.mono edges _ _ path⟩

def IsRoot (_ : Universe graph roots) (vertex : Vertex) : Prop :=
  ∃ request ∈ roots, graph.target request = vertex

/-- The request is one of the roots or of the requests of some vertex. -/
def Occurs (world : Universe graph roots) (request : Request) : Prop :=
  request ∈ roots ∨
    ∃ vertex value, world.node vertex = some value ∧ request ∈ graph.requests value

/-- Every pending request leads to a place that its frame's marks allow. -/
structure SoundFrame (world : Universe graph roots) (frame : Frame Vertex Request) : Prop where
  occurs : ∀ request ∈ frame.pending, world.Occurs request
  reachable : ∀ request ∈ frame.pending, world.Reachable (graph.target request)
  strong : frame.marks.strong = true →
    ∀ request ∈ frame.pending, world.StrongReachable (graph.target request)
  root : frame.marks.root = true → ∀ request ∈ frame.pending, request ∈ roots

/-- Every entered vertex has its own node, and its marks are justified. -/
structure SoundEntry (world : Universe graph roots) (vertex : Vertex) (value : Node)
    (marks : Marks) : Prop where
  node : world.node vertex = some value
  reachable : world.Reachable vertex
  strong : marks.strong = true → world.StrongReachable vertex
  root : marks.root = true → world.IsRoot vertex

structure Sound (world : Universe graph roots) (state : State Vertex Request Node) : Prop where
  frames : ∀ frame ∈ state.frames, world.SoundFrame frame
  entries : ∀ vertex value marks, state.entry vertex = some (value, marks) →
    world.SoundEntry vertex value marks

/-- At the start the only frame has the roots. -/
theorem sound_start (world : Universe graph roots) : world.Sound (start roots) where
  frames frame member := by
    simp only [start, List.mem_singleton] at member
    subst member
    exact ⟨fun request member => .inl member, fun request member => ⟨request, member, .refl⟩,
      fun _ request member => ⟨request, member, .refl⟩, fun _ request member => member⟩
  entries vertex value marks known := by simp [start] at known

/-- A frame with the requests of a sound vertex is sound. -/
theorem SoundEntry.child {world : Universe graph roots} {vertex : Vertex} {value : Node}
    {marks : Marks} (sound : world.SoundEntry vertex value marks)
    {child : Frame Vertex Request}
    (requests : ∀ request ∈ child.pending, request ∈ graph.requests value)
    (strong : child.marks.strong = true →
      world.StrongReachable vertex ∧ child.pending = graph.strong value)
    (root : child.marks.root = false) : world.SoundFrame child where
  occurs request member := .inr ⟨vertex, value, sound.node, requests request member⟩
  reachable request member := by
    obtain ⟨origin, isRoot, path⟩ := sound.reachable
    exact ⟨origin, isRoot,
      path.tail ⟨value, sound.node, request, requests request member, rfl⟩⟩
  strong mark request member := by
    obtain ⟨⟨origin, isRoot, path⟩, same⟩ := strong mark
    rw [same] at member
    exact ⟨origin, isRoot, path.tail ⟨value, sound.node, request, member, rfl⟩⟩
  root mark := by simp [root] at mark

/-- A frame that goes on with fewer requests stays sound. -/
theorem SoundFrame.resume {world : Universe graph roots} {frame : Frame Vertex Request}
    (sound : world.SoundFrame frame) {request : Request} {later : List Request}
    (next : frame.pending = request :: later) (fresh : Option Vertex) :
    world.SoundFrame (frame.resume later fresh) := by
  have earlier : ∀ other ∈ later, other ∈ frame.pending := fun other member => by
    rw [next]
    exact List.mem_cons_of_mem request member
  exact ⟨fun other member => sound.occurs other (earlier other member),
    fun other member => sound.reachable other (earlier other member),
    fun mark other member => sound.strong mark other (earlier other member),
    fun mark other member => sound.root mark other (earlier other member)⟩

/-- The visit of a pending request gives its vertex a sound entry. -/
theorem SoundFrame.visited {world : Universe graph roots} {frame : Frame Vertex Request}
    (sound : world.SoundFrame frame) {request : Request} {later : List Request}
    (next : frame.pending = request :: later) {value : Node}
    (node : world.node (graph.target request) = some value) :
    world.SoundEntry (graph.target request) value frame.marks := by
  have member : request ∈ frame.pending := by rw [next]; exact List.mem_cons_self
  exact ⟨node, sound.reachable request member, fun mark => sound.strong mark request member,
    fun mark => ⟨request, sound.root mark request member, rfl⟩⟩

/-- Marks that are right one by one are right together. -/
theorem SoundEntry.join {world : Universe graph roots} {vertex : Vertex} {value : Node}
    {first second : Marks} (sound : world.SoundEntry vertex value first)
    (sound' : world.SoundEntry vertex value second) :
    world.SoundEntry vertex value (first.join second) where
  node := sound.node
  reachable := sound.reachable
  strong mark := by
    rw [Marks.join_strong, Bool.or_eq_true] at mark
    exact mark.elim sound.strong sound'.strong
  root mark := by
    rw [Marks.join_root, Bool.or_eq_true] at mark
    exact mark.elim sound.root sound'.root

variable [DecidableEq Vertex]

/-- A step keeps the search sound. -/
theorem sound_step (world : Universe graph roots) {state next : State Vertex Request Node}
    (sound : world.Sound state) (step : Step graph state next) : world.Sound next where
  frames frame member := by
    have isTop {top rest} (frames : state.frames = top :: rest) : world.SoundFrame top :=
      sound.frames top (frames ▸ List.mem_cons_self)
    cases step.frame_origin member with
    | kept member => exact sound.frames frame member
    | resumed frames isNext fresh => exact (isTop frames).resume isNext fresh
    | @pushed top _ request _ node _ _ frames isNext resolved known isChild =>
        have node' : world.node (graph.target request) = some node := by
          cases resolved with
          | inl before =>
              obtain ⟨marks, known⟩ := before
              exact (sound.entries _ node marks known).node
          | inr loads =>
              apply world.resolves request _ node loads
              exact (isTop frames).occurs request (isNext ▸ List.mem_cons_self)
        have visited := (isTop frames).visited isNext node'
        apply visited.child isChild.requests _ isChild.root
        intro mark
        exact ⟨visited.strong (isChild.strong mark).1, (isChild.strong mark).2⟩
  entries vertex value marks known := by
    have isTop {top rest} (frames : state.frames = top :: rest) : world.SoundFrame top :=
      sound.frames top (frames ▸ List.mem_cons_self)
    cases step.entry_origin known with
    | kept old => exact sound.entries vertex value marks old
    | met frames isNext old pushed =>
        have before := sound.entries _ value _ old
        exact before.join ((isTop frames).visited isNext before.node)
    | @loaded _ _ request _ _ frames isNext unknown loads pushed =>
        apply (isTop frames).visited isNext
        apply world.resolves request _ value loads
        exact (isTop frames).occurs request (isNext ▸ List.mem_cons_self)

/-- Every state that a search reaches is sound. -/
theorem sound_runs (world : Universe graph roots) {state : State Vertex Request Node}
    (runs : Runs graph (start roots) state) : world.Sound state := by
  induction runs with
  | refl => exact world.sound_start
  | tail _ step ih => exact world.sound_step ih step

/-- The finished search has entered exactly the reachable vertices. -/
theorem entered_iff (world : Universe graph roots) (unlimited : ∀ depth, graph.follow depth = true)
    {state : State Vertex Request Node} (runs : Runs graph (start roots) state)
    (finished : state.frames = []) (vertex : Vertex) :
    state.Entered vertex ↔ world.Reachable vertex := by
  have sound := world.sound_runs runs
  have covers := covers_runs unlimited runs
  constructor
  · rintro ⟨value, marks, known⟩
    exact (sound.entries vertex value marks known).reachable
  · rintro ⟨origin, isRoot, path⟩
    induction path with
    | refl =>
        obtain ⟨value, marks, known, _⟩ := (roots_owed runs isRoot).settled finished
        exact ⟨value, marks, known⟩
    | tail _ edge ih =>
        obtain ⟨value, marks, known⟩ := ih
        obtain ⟨value', node, request, member, rfl⟩ := edge
        rw [(sound.entries _ value marks known).node] at node
        cases node
        obtain ⟨value', marks', known', _⟩ :=
          (covers.requests request (.inr ⟨_, value, marks, known, member⟩)).settled finished
        exact ⟨value', marks', known'⟩

/-- The finished search has marked as strong exactly the strongly reachable vertices. -/
theorem strong_iff (world : Universe graph roots) (unlimited : ∀ depth, graph.follow depth = true)
    {state : State Vertex Request Node} (runs : Runs graph (start roots) state)
    (finished : state.frames = []) (vertex : Vertex) :
    (∃ value marks, state.entry vertex = some (value, marks) ∧ marks.strong = true) ↔
      world.StrongReachable vertex := by
  have sound := world.sound_runs runs
  have covers := covers_runs unlimited runs
  constructor
  · rintro ⟨value, marks, known, strong⟩
    exact (sound.entries vertex value marks known).strong strong
  · rintro ⟨origin, isRoot, path⟩
    induction path with
    | refl =>
        obtain ⟨value, marks, known, held⟩ := (roots_owed runs isRoot).settled finished
        exact ⟨value, marks, known, held.2⟩
    | tail _ edge ih =>
        obtain ⟨value, marks, known, strong⟩ := ih
        obtain ⟨value', node, request, member, rfl⟩ := edge
        rw [(sound.entries _ value marks known).node] at node
        cases node
        exact (covers.strong _ value marks known strong request member).settled finished

end Universe

end GraphSearch
