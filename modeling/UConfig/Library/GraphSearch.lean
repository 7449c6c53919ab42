/-
This file gives a depth-first search with an explicit stack over strong and weak requests.
A vertex enters the search once, and it joins the order when its own requests are finished.
-/

import Mathlib.Logic.Function.Basic
import Mathlib.Logic.Relation
import Mathlib.Data.List.Basic

namespace GraphSearch

variable {Vertex Request Node : Type*}

/-- A frame and a vertex remember whether a root and whether strong requests led to them. -/
structure Marks where
  root : Bool
  strong : Bool
  deriving DecidableEq

namespace Marks

def join (first second : Marks) : Marks :=
  ⟨first.root || second.root, first.strong || second.strong⟩

@[simp] theorem join_root (first second : Marks) :
    (first.join second).root = (first.root || second.root) := rfl

@[simp] theorem join_strong (first second : Marks) :
    (first.join second).strong = (first.strong || second.strong) := rfl

end Marks

/-- The search discovers the requests of a vertex when it loads the vertex's node. -/
structure Graph (Vertex Request Node : Type*) where
  target : Request → Vertex
  strong : Node → List Request
  weak : Node → List Request
  Loads : Request → Node → Prop
  follow : Nat → Bool

def Graph.requests (graph : Graph Vertex Request Node) (node : Node) : List Request :=
  graph.strong node ++ graph.weak node

/-- A frame holds the requests still to be visited at one depth. -/
structure Frame (Vertex Request : Type*) where
  pending : List Request
  fresh : Option Vertex
  depth : Nat
  marks : Marks

/-- The stack has its top at the head of the list. -/
structure State (Vertex Request Node : Type*) where
  frames : List (Frame Vertex Request)
  entry : Vertex → Option (Node × Marks)
  order : List Vertex

def Frame.resume (frame : Frame Vertex Request) (later : List Request) (fresh : Option Vertex) :
    Frame Vertex Request :=
  { frame with pending := later, fresh := fresh }

/-- The requests that a loaded node adds are visited weak ones first. -/
def Graph.opened (graph : Graph Vertex Request Node) (node : Node)
    (frame : Frame Vertex Request) : List (Frame Vertex Request) :=
  if graph.follow (frame.depth + 1) then
    [⟨graph.weak node, none, frame.depth + 1, ⟨false, false⟩⟩,
      ⟨graph.strong node, none, frame.depth + 1, ⟨false, frame.marks.strong⟩⟩]
  else []

/-- A vertex that turns strong has its strong requests visited again. -/
def Graph.revealed (graph : Graph Vertex Request Node) (node : Node) (marks : Marks)
    (frame : Frame Vertex Request) : List (Frame Vertex Request) :=
  if frame.marks.strong && !marks.strong && graph.follow (frame.depth + 1) then
    [⟨graph.strong node, none, frame.depth + 1, ⟨false, frame.marks.strong⟩⟩]
  else []

section

variable [DecidableEq Vertex]

/-- One step works on the top frame after its finished vertex has joined the order. -/
inductive Step (graph : Graph Vertex Request Node) :
    State Vertex Request Node → State Vertex Request Node → Prop
  | pop (frame rest entry order) (idle : frame.pending = []) :
      Step graph ⟨frame :: rest, entry, order⟩ ⟨rest, entry, frame.fresh.toList ++ order⟩
  | meet (frame rest entry order request later node marks)
      (next : frame.pending = request :: later)
      (known : entry (graph.target request) = some (node, marks)) :
      Step graph ⟨frame :: rest, entry, order⟩
        ⟨graph.revealed node marks frame ++ frame.resume later none :: rest,
          Function.update entry (graph.target request) (some (node, marks.join frame.marks)),
          frame.fresh.toList ++ order⟩
  | load (frame rest entry order request later node)
      (next : frame.pending = request :: later)
      (unknown : entry (graph.target request) = none)
      (loads : graph.Loads request node) :
      Step graph ⟨frame :: rest, entry, order⟩
        ⟨graph.opened node frame ++ frame.resume later (some (graph.target request)) :: rest,
          Function.update entry (graph.target request) (some (node, frame.marks)),
          frame.fresh.toList ++ order⟩

end

/-- The search starts with the root requests. -/
def start (roots : List Request) : State Vertex Request Node :=
  ⟨[⟨roots, none, 0, ⟨true, true⟩⟩], fun _ => none, []⟩

abbrev Runs [DecidableEq Vertex] (graph : Graph Vertex Request Node) :
    State Vertex Request Node → State Vertex Request Node → Prop :=
  Relation.ReflTransGen (Step graph)

def State.Entered (state : State Vertex Request Node) (vertex : Vertex) : Prop :=
  ∃ node marks, state.entry vertex = some (node, marks)

/-- The next step of the state visits this request at this depth. -/
def State.Visits (state : State Vertex Request Node) (request : Request) (depth : Nat) : Prop :=
  ∃ frame rest later, state.frames = frame :: rest ∧ frame.pending = request :: later ∧
    depth = frame.depth + 1

/-- A frame that a visit pushes is one deeper and holds requests of the visited node. -/
structure Graph.Child (graph : Graph Vertex Request Node) (node : Node)
    (top child : Frame Vertex Request) : Prop where
  fresh : child.fresh = none
  deeper : child.depth = top.depth + 1
  root : child.marks.root = false
  follows : graph.follow (top.depth + 1) = true
  requests : ∀ request ∈ child.pending, request ∈ graph.requests node
  strong : child.marks.strong = true → top.marks.strong = true ∧ child.pending = graph.strong node

/-- What a node opens are its children. -/
theorem Graph.mem_opened {graph : Graph Vertex Request Node} {node : Node}
    {top child : Frame Vertex Request} (member : child ∈ graph.opened node top) :
    graph.Child node top child := by
  unfold opened at member
  split at member
  case isFalse => simp at member
  case isTrue follows =>
    simp only [List.mem_cons, List.not_mem_nil, or_false] at member
    rcases member with rfl | rfl
    · exact ⟨rfl, rfl, rfl, follows, fun request mem => List.mem_append_right _ mem,
        fun strong => by simp at strong⟩
    · exact ⟨rfl, rfl, rfl, follows, fun request mem => List.mem_append_left _ mem,
        fun strong => ⟨strong, rfl⟩⟩

/-- What a node reveals are its children. -/
theorem Graph.mem_revealed {graph : Graph Vertex Request Node} {node : Node} {marks : Marks}
    {top child : Frame Vertex Request} (member : child ∈ graph.revealed node marks top) :
    graph.Child node top child := by
  unfold revealed at member
  split at member
  case isFalse => simp at member
  case isTrue reveals =>
    simp only [Bool.and_eq_true] at reveals
    simp only [List.mem_cons, List.not_mem_nil, or_false] at member
    subst member
    exact ⟨rfl, rfl, rfl, reveals.2, fun request mem => List.mem_append_left _ mem,
      fun strong => ⟨strong, rfl⟩⟩

/-- Every request of a loaded node is pending when the depth allows it. -/
theorem Graph.opened_covers (graph : Graph Vertex Request Node) (node : Node)
    (frame : Frame Vertex Request) (follows : graph.follow (frame.depth + 1) = true)
    {request : Request} (member : request ∈ graph.requests node) :
    ∃ child ∈ graph.opened node frame, request ∈ child.pending := by
  simp only [opened, follows, if_true, List.mem_cons, List.not_mem_nil, or_false,
    exists_eq_or_imp, exists_eq_left]
  exact (List.mem_append.mp member).symm

/-- The strong requests of a vertex loaded by a strong frame are pending in a strong frame. -/
theorem Graph.opened_strong (graph : Graph Vertex Request Node) (node : Node)
    (frame : Frame Vertex Request) (follows : graph.follow (frame.depth + 1) = true)
    (strong : frame.marks.strong = true) {request : Request}
    (member : request ∈ graph.strong node) :
    ∃ child ∈ graph.opened node frame, child.marks.strong = true ∧ request ∈ child.pending :=
  ⟨⟨graph.strong node, none, frame.depth + 1, ⟨false, frame.marks.strong⟩⟩,
    by simp [opened, follows], strong, member⟩

/-- The strong requests of a vertex that turns strong are pending in a strong frame. -/
theorem Graph.revealed_strong (graph : Graph Vertex Request Node) (node : Node) (marks : Marks)
    (frame : Frame Vertex Request) (follows : graph.follow (frame.depth + 1) = true)
    (strong : frame.marks.strong = true) (weak : marks.strong = false) {request : Request}
    (member : request ∈ graph.strong node) :
    ∃ child ∈ graph.revealed node marks frame,
      child.marks.strong = true ∧ request ∈ child.pending :=
  ⟨⟨graph.strong node, none, frame.depth + 1, ⟨false, frame.marks.strong⟩⟩,
    by simp [revealed, follows, strong, weak], strong, member⟩

/-- The vertices that have entered but have not joined the order yet. -/
def State.unfinished (state : State Vertex Request Node) : List Vertex :=
  state.frames.filterMap Frame.fresh

/-- Every entered vertex stands once, either in a frame or in the order. -/
structure Tracked (state : State Vertex Request Node) : Prop where
  nodup : (state.unfinished ++ state.order).Nodup
  entered : ∀ vertex, state.Entered vertex ↔ vertex ∈ state.unfinished ∨ vertex ∈ state.order

/-- Nothing has been entered at the start. -/
theorem tracked_start (roots : List Request) :
    Tracked (start roots : State Vertex Request Node) where
  nodup := by simp [start, State.unfinished]
  entered vertex := by simp [start, State.unfinished, State.Entered]

/-- Opened frames have not entered anything yet. -/
theorem Graph.filterMap_opened (graph : Graph Vertex Request Node) (node : Node)
    (frame : Frame Vertex Request) : (graph.opened node frame).filterMap Frame.fresh = [] := by
  rw [List.filterMap_eq_nil_iff]
  exact fun child member => (mem_opened member).fresh

/-- Revealed frames have not entered anything yet. -/
theorem Graph.filterMap_revealed (graph : Graph Vertex Request Node) (node : Node)
    (marks : Marks) (frame : Frame Vertex Request) :
    (graph.revealed node marks frame).filterMap Frame.fresh = [] := by
  rw [List.filterMap_eq_nil_iff]
  exact fun child member => (mem_revealed member).fresh

/-- The unfinished vertices of a stack are those of its frames in turn. -/
theorem unfinished_cons (frame : Frame Vertex Request) (rest : List (Frame Vertex Request)) :
    (frame :: rest).filterMap Frame.fresh =
      frame.fresh.toList ++ rest.filterMap Frame.fresh := by
  cases fresh : frame.fresh <;> simp [fresh]

/-- The number of vertices that have entered. -/
def State.size (state : State Vertex Request Node) : Nat :=
  state.unfinished.length + state.order.length

/-- A finished vertex stays entered when it joins the order. -/
theorem size_finish (frame : Frame Vertex Request) (rest : List (Frame Vertex Request))
    (entry : Vertex → Option (Node × Marks)) (order : List Vertex) :
    (⟨rest, entry, frame.fresh.toList ++ order⟩ : State Vertex Request Node).size =
      (⟨frame :: rest, entry, order⟩ : State Vertex Request Node).size := by
  simp only [State.size, State.unfinished, unfinished_cons, List.length_append]
  omega

/-- A visit enters its vertex when it leaves it in the top frame. -/
theorem size_push {pushed : List (Frame Vertex Request)}
    (settled : pushed.filterMap Frame.fresh = []) (frame : Frame Vertex Request)
    (rest : List (Frame Vertex Request)) (later : List Request) (fresh : Option Vertex)
    (entry entry' : Vertex → Option (Node × Marks)) (order : List Vertex) :
    (⟨pushed ++ frame.resume later fresh :: rest, entry', frame.fresh.toList ++ order⟩ :
      State Vertex Request Node).size = fresh.toList.length +
        (⟨frame :: rest, entry, order⟩ : State Vertex Request Node).size := by
  simp only [State.size, State.unfinished, List.filterMap_append, settled, unfinished_cons,
    List.length_append, Frame.resume, List.length_nil]
  omega

/-- Moving the finished vertex of the top frame keeps the tracked vertices. -/
theorem tracked_finish {frame : Frame Vertex Request} {rest : List (Frame Vertex Request)}
    {entry : Vertex → Option (Node × Marks)} {order : List Vertex}
    (tracked : Tracked ⟨frame :: rest, entry, order⟩) :
    Tracked ⟨rest, entry, frame.fresh.toList ++ order⟩ where
  nodup := by
    have nodup := tracked.nodup
    simp only [State.unfinished, unfinished_cons] at nodup ⊢
    refine (List.Perm.nodup_iff ?_).mp nodup
    rw [List.append_assoc]
    exact List.perm_append_comm_assoc ..
  entered vertex := by
    have entered := tracked.entered vertex
    simp only [State.Entered, State.unfinished, unfinished_cons, List.mem_append] at entered ⊢
    rw [entered]
    tauto

/-- A request is settled once its vertex has the property, and it is owed while it is pending. -/
def Owed (graph : Graph Vertex Request Node) (Settled : Request → Node → Marks → Prop)
    (Debtor : Marks → Prop) (state : State Vertex Request Node) (request : Request) : Prop :=
  (∃ node marks, state.entry (graph.target request) = some (node, marks) ∧
    Settled request node marks) ∨
  ∃ frame ∈ state.frames, Debtor frame.marks ∧ request ∈ frame.pending

/-- No debt is left when the stack is empty. -/
theorem Owed.settled {graph : Graph Vertex Request Node}
    {Settled : Request → Node → Marks → Prop} {Debtor : Marks → Prop}
    {state : State Vertex Request Node} (empty : state.frames = []) {request : Request}
    (owed : Owed graph Settled Debtor state request) :
    ∃ node marks, state.entry (graph.target request) = some (node, marks) ∧
      Settled request node marks := by
  rcases owed with settled | ⟨frame, member, _⟩
  · exact settled
  · rw [empty] at member
    cases member

/-- A request comes from the roots or from an entered node. -/
def Source (graph : Graph Vertex Request Node) (roots : List Request)
    (state : State Vertex Request Node) (request : Request) : Prop :=
  request ∈ roots ∨ ∃ vertex node marks, state.entry vertex = some (node, marks) ∧
    request ∈ graph.requests node

def Sourced (graph : Graph Vertex Request Node) (roots : List Request)
    (state : State Vertex Request Node) : Prop :=
  ∀ frame ∈ state.frames, ∀ request ∈ frame.pending, Source graph roots state request

variable [DecidableEq Vertex]

/-- A step keeps every node, and it only adds marks. -/
theorem Step.entry_grows {graph : Graph Vertex Request Node}
    {state next : State Vertex Request Node} (step : Step graph state next) {vertex : Vertex}
    {node : Node} {marks : Marks} (known : state.entry vertex = some (node, marks)) :
    ∃ marks', next.entry vertex = some (node, marks') ∧
      (marks.root = true → marks'.root = true) ∧
      (marks.strong = true → marks'.strong = true) := by
  cases step with
  | pop => exact ⟨marks, known, id, id⟩
  | meet frame rest entry order request later node' marks' next' known' =>
      by_cases same : vertex = graph.target request
      · subst same
        change entry _ = _ at known
        rw [known'] at known
        cases known
        refine ⟨_, Function.update_self .., ?_, ?_⟩ <;>
          intro mark <;> simp [mark]
      · exact ⟨marks, (Function.update_of_ne same ..).trans known, id, id⟩
  | load frame rest entry order request later node' next' unknown =>
      have different : vertex ≠ graph.target request := by
        intro same
        subst same
        change entry _ = _ at known
        rw [unknown] at known
        cases known
      exact ⟨marks, (Function.update_of_ne different ..).trans known, id, id⟩

/-- A vertex that has been entered stays so. -/
theorem Step.entered {graph : Graph Vertex Request Node}
    {state next : State Vertex Request Node} (step : Step graph state next) {vertex : Vertex}
    (entered : state.Entered vertex) : next.Entered vertex := by
  obtain ⟨node, marks, known⟩ := entered
  obtain ⟨marks', known', _⟩ := step.entry_grows known
  exact ⟨node, marks', known'⟩

/-- Nothing that has been entered is lost in a run. -/
theorem Runs.entered {graph : Graph Vertex Request Node}
    {state last : State Vertex Request Node} (runs : Runs graph state last) {vertex : Vertex}
    (entered : state.Entered vertex) : last.Entered vertex := by
  induction runs with
  | refl => exact entered
  | tail _ step ih => exact step.entered ih

/-- A run keeps the node of every entered vertex. -/
theorem Runs.node {graph : Graph Vertex Request Node} {state last : State Vertex Request Node}
    (runs : Runs graph state last) {vertex : Vertex} {node : Node} {marks : Marks}
    (known : state.entry vertex = some (node, marks)) :
    ∃ marks', last.entry vertex = some (node, marks') := by
  induction runs with
  | refl => exact ⟨marks, known⟩
  | tail _ step ih =>
      obtain ⟨marks', known'⟩ := ih
      obtain ⟨marks'', known'', _⟩ := step.entry_grows known'
      exact ⟨marks'', known''⟩

/-- An entry after a step was there before, or it is the entry of the visited request. -/
inductive EntryOrigin (graph : Graph Vertex Request Node) (state next : State Vertex Request Node) :
    Vertex → Node → Marks → Prop
  | kept {vertex node marks} (known : state.entry vertex = some (node, marks)) :
      EntryOrigin graph state next vertex node marks
  | met {top rest request later node marks} (frames : state.frames = top :: rest)
      (isNext : top.pending = request :: later)
      (known : state.entry (graph.target request) = some (node, marks))
      (pushed : graph.revealed node marks top ⊆ next.frames) :
      EntryOrigin graph state next (graph.target request) node (marks.join top.marks)
  | loaded {top rest request later node} (frames : state.frames = top :: rest)
      (isNext : top.pending = request :: later)
      (unknown : state.entry (graph.target request) = none) (loads : graph.Loads request node)
      (pushed : graph.opened node top ⊆ next.frames) :
      EntryOrigin graph state next (graph.target request) node top.marks

/-- Each entry after a step comes from the state before it or from the step's request. -/
theorem Step.entry_origin {graph : Graph Vertex Request Node}
    {state next : State Vertex Request Node} (step : Step graph state next) {vertex : Vertex}
    {node : Node} {marks : Marks} (known : next.entry vertex = some (node, marks)) :
    EntryOrigin graph state next vertex node marks := by
  cases step with
  | pop top rest entry order idle => exact .kept known
  | meet top rest entry order request later own marks' isNext known' =>
      by_cases same : vertex = graph.target request
      · subst same
        simp only [Function.update_self, Option.some.injEq, Prod.mk.injEq] at known
        obtain ⟨rfl, rfl⟩ := known
        exact .met rfl isNext known' (List.subset_append_left _ _)
      · exact .kept ((Function.update_of_ne same ..).symm.trans known)
  | load top rest entry order request later own isNext unknown loads =>
      by_cases same : vertex = graph.target request
      · subst same
        simp only [Function.update_self, Option.some.injEq, Prod.mk.injEq] at known
        obtain ⟨rfl, rfl⟩ := known
        exact .loaded rfl isNext unknown loads (List.subset_append_left _ _)
      · exact .kept ((Function.update_of_ne same ..).symm.trans known)

/-- A frame after a step was there before, or it goes on behind the visited request, or it holds
requests of the visited node. -/
inductive FrameOrigin (graph : Graph Vertex Request Node) (state next : State Vertex Request Node) :
    Frame Vertex Request → Prop
  | kept {frame} (member : frame ∈ state.frames) : FrameOrigin graph state next frame
  | resumed {top rest request later} (frames : state.frames = top :: rest)
      (isNext : top.pending = request :: later) (fresh : Option Vertex) :
      FrameOrigin graph state next (top.resume later fresh)
  | pushed {top rest request later node marks child} (frames : state.frames = top :: rest)
      (isNext : top.pending = request :: later)
      (resolved : (∃ before, state.entry (graph.target request) = some (node, before)) ∨
        graph.Loads request node)
      (known : next.entry (graph.target request) = some (node, marks))
      (isChild : graph.Child node top child) : FrameOrigin graph state next child

/-- Each frame after a step comes from the state before it or from a loaded node. -/
theorem Step.frame_origin {graph : Graph Vertex Request Node}
    {state next : State Vertex Request Node} (step : Step graph state next)
    {frame : Frame Vertex Request} (member : frame ∈ next.frames) :
    FrameOrigin graph state next frame := by
  cases step with
  | pop top rest entry order idle => exact .kept (List.mem_cons_of_mem _ member)
  | meet top rest entry order request later node marks isNext known =>
      cases List.mem_append.mp member with
      | inl revealed =>
          exact .pushed rfl isNext (.inl ⟨marks, known⟩) (Function.update_self ..)
            (Graph.mem_revealed revealed)
      | inr old =>
          cases List.mem_cons.mp old with
          | inl resumed =>
              subst resumed
              exact .resumed rfl isNext none
          | inr below => exact .kept (List.mem_cons_of_mem _ below)
  | load top rest entry order request later node isNext unknown loads =>
      cases List.mem_append.mp member with
      | inl opened =>
          exact .pushed rfl isNext (.inr loads) (Function.update_self ..) (Graph.mem_opened opened)
      | inr old =>
          cases List.mem_cons.mp old with
          | inl resumed =>
              subst resumed
              exact .resumed rfl isNext (some (graph.target request))
          | inr below => exact .kept (List.mem_cons_of_mem _ below)

/-- The visited request enters its vertex. -/
theorem Step.enters {graph : Graph Vertex Request Node} {state next : State Vertex Request Node}
    (step : Step graph state next) {request : Request} {depth : Nat}
    (visits : state.Visits request depth) : next.Entered (graph.target request) := by
  obtain ⟨frame, rest, later, frames, pending, _⟩ := visits
  cases step with
  | pop top below entry order idle =>
      obtain ⟨rfl, -⟩ := List.cons.inj frames
      rw [idle] at pending
      cases pending
  | meet top below entry order visited others node marks isNext known =>
      obtain ⟨rfl, -⟩ := List.cons.inj frames
      obtain ⟨rfl, -⟩ := List.cons.inj (isNext.symm.trans pending)
      exact ⟨node, _, Function.update_self ..⟩
  | load top below entry order visited others node isNext unknown loads =>
      obtain ⟨rfl, -⟩ := List.cons.inj frames
      obtain ⟨rfl, -⟩ := List.cons.inj (isNext.symm.trans pending)
      exact ⟨node, _, Function.update_self ..⟩

/-- A vertex that enters in a step is the target of the visited request. -/
theorem Step.visits_of_entered {graph : Graph Vertex Request Node}
    {state next : State Vertex Request Node} (step : Step graph state next) {vertex : Vertex}
    (entered : next.Entered vertex) : state.Entered vertex ∨
      ∃ request depth, state.Visits request depth ∧ graph.target request = vertex := by
  obtain ⟨node, marks, known⟩ := entered
  cases step.entry_origin known with
  | kept old => exact .inl ⟨node, marks, old⟩
  | met frames isNext old pushed => exact .inr ⟨_, _, ⟨_, _, _, frames, isNext, rfl⟩, rfl⟩
  | loaded frames isNext unknown loads pushed =>
      exact .inr ⟨_, _, ⟨_, _, _, frames, isNext, rfl⟩, rfl⟩

/-- Every entered node was loaded for a request of its vertex. -/
theorem Runs.loads {graph : Graph Vertex Request Node} {roots : List Request}
    {state : State Vertex Request Node} (runs : Runs graph (start roots) state) {vertex : Vertex}
    {node : Node} {marks : Marks} (known : state.entry vertex = some (node, marks)) :
    ∃ request, graph.target request = vertex ∧ graph.Loads request node := by
  induction runs generalizing marks with
  | refl => cases known
  | tail _ step ih =>
      cases step.entry_origin known with
      | kept old => exact ih old
      | met frames isNext old pushed => exact ih old
      | loaded frames isNext unknown loads pushed => exact ⟨_, rfl, loads⟩

/-- Every pending request is a root or a request of an entered node. -/
theorem Step.sourced {graph : Graph Vertex Request Node} {roots : List Request}
    {state next : State Vertex Request Node} (step : Step graph state next)
    (sourced : Sourced graph roots state) : Sourced graph roots next := by
  have keep : ∀ request, Source graph roots state request → Source graph roots next request := by
    intro request source
    cases source with
    | inl isRoot => exact .inl isRoot
    | inr requested =>
        obtain ⟨vertex, node, marks, known, member⟩ := requested
        obtain ⟨marks', known', _⟩ := step.entry_grows known
        exact .inr ⟨vertex, node, marks', known', member⟩
  intro frame member request pending
  cases step.frame_origin member with
  | kept member => exact keep request (sourced frame member request pending)
  | @resumed top rest visited later frames isNext fresh =>
      have isTop : top ∈ state.frames := by
        rw [frames]
        exact List.mem_cons_self
      have waiting : request ∈ top.pending := by
        rw [isNext]
        exact List.mem_cons_of_mem _ pending
      exact keep request (sourced top isTop request waiting)
  | pushed frames isNext resolved known isChild =>
      exact .inr ⟨_, _, _, known, isChild.requests request pending⟩

/-- All requests of a search come from the roots or from nodes that it has loaded. -/
theorem Runs.sourced {graph : Graph Vertex Request Node} {roots : List Request}
    {state : State Vertex Request Node} (runs : Runs graph (start roots) state) :
    Sourced graph roots state := by
  induction runs with
  | refl =>
      intro frame member request pending
      rw [List.mem_singleton.mp member] at pending
      exact .inl pending
  | tail _ step ih => exact step.sourced ih

/-- A request is a root or a request of a node that was loaded for a request. -/
inductive Graph.Requested (graph : Graph Vertex Request Node) (roots : List Request) :
    Request → Prop
  | root {request} (member : request ∈ roots) : Requested graph roots request
  | required {request node other} (requested : Requested graph roots request)
      (loads : graph.Loads request node) (member : other ∈ graph.requests node) :
      Requested graph roots other

/-- The search only visits requested requests, and it has loaded its nodes for them. -/
structure Expected (graph : Graph Vertex Request Node) (roots : List Request)
    (state : State Vertex Request Node) : Prop where
  pending : ∀ frame ∈ state.frames, ∀ request ∈ frame.pending, graph.Requested roots request
  loaded : ∀ vertex node marks, state.entry vertex = some (node, marks) →
    ∃ request, graph.Requested roots request ∧ graph.target request = vertex ∧
      graph.Loads request node

/-- A step keeps the requests that are still expected. -/
theorem Step.expected {graph : Graph Vertex Request Node} {roots : List Request}
    {state next : State Vertex Request Node} (step : Step graph state next)
    (expected : Expected graph roots state) : Expected graph roots next := by
  have waiting : ∀ {top rest}, state.frames = top :: rest → ∀ request ∈ top.pending,
      graph.Requested roots request := by
    intro top rest frames
    have isTop : top ∈ state.frames := by
      rw [frames]
      exact List.mem_cons_self
    exact expected.pending top isTop
  have loaded : ∀ vertex node marks, next.entry vertex = some (node, marks) →
      ∃ request, graph.Requested roots request ∧ graph.target request = vertex ∧
        graph.Loads request node := by
    intro vertex node marks known
    cases step.entry_origin known with
    | kept old => exact expected.loaded vertex node marks old
    | met frames isNext old pushed => exact expected.loaded _ node _ old
    | loaded frames isNext unknown loads pushed =>
        refine ⟨_, waiting frames _ ?_, rfl, loads⟩
        rw [isNext]
        exact List.mem_cons_self
  refine ⟨?_, loaded⟩
  intro frame member request pending
  cases step.frame_origin member with
  | kept member => exact expected.pending frame member request pending
  | resumed frames isNext fresh =>
      refine waiting frames request ?_
      rw [isNext]
      exact List.mem_cons_of_mem _ pending
  | pushed frames isNext resolved known isChild =>
      obtain ⟨visited, requested, _, loads⟩ := loaded _ _ _ known
      exact .required requested loads (isChild.requests request pending)

/-- All requests of a run are expected. -/
theorem Runs.expected {graph : Graph Vertex Request Node} {roots : List Request}
    {state : State Vertex Request Node} (runs : Runs graph (start roots) state) :
    Expected graph roots state := by
  induction runs with
  | refl =>
      refine ⟨?_, fun vertex node marks known => (by cases known)⟩
      intro frame member request pending
      rw [List.mem_singleton.mp member] at pending
      exact .root pending
  | tail _ step ih => exact step.expected ih

/-- Every step keeps the vertices tracked. -/
theorem Step.tracked {graph : Graph Vertex Request Node}
    {state next : State Vertex Request Node} (step : Step graph state next)
    (tracked : Tracked state) : Tracked next := by
  cases step with
  | pop frame rest entry order idle => exact tracked_finish tracked
  | meet frame rest entry order request later node marks next' known =>
      have finished := tracked_finish tracked
      refine ⟨?_, fun vertex => ?_⟩
      · simpa [State.unfinished, List.filterMap_append, graph.filterMap_revealed,
          Frame.resume] using finished.nodup
      · have entered := finished.entered vertex
        simp only [State.Entered, State.unfinished, List.filterMap_append,
          graph.filterMap_revealed, List.nil_append, unfinished_cons, Frame.resume,
          Option.toList_none] at entered ⊢
        rw [← entered]
        by_cases same : vertex = graph.target request
        · subst same
          simp [known]
        · rw [Function.update_of_ne same]
  | load frame rest entry order request later node next' unknown loads =>
      have finished := tracked_finish tracked
      have absent : ¬ (⟨rest, entry, frame.fresh.toList ++ order⟩ :
          State Vertex Request Node).Entered (graph.target request) := by
        rintro ⟨_, _, known⟩
        change entry _ = _ at known
        rw [unknown] at known
        cases known
      have outside := (not_congr (finished.entered _)).mp absent
      push Not at outside
      refine ⟨?_, fun vertex => ?_⟩
      · simp only [State.unfinished, List.filterMap_append, graph.filterMap_opened,
          List.nil_append, unfinished_cons, Frame.resume, Option.toList_some,
          List.cons_append, List.nodup_cons, List.mem_append]
        exact ⟨fun member => member.elim outside.1
          (fun mem => outside.2 (List.mem_append.mpr mem)), finished.nodup⟩
      · have entered := finished.entered vertex
        simp only [State.Entered, State.unfinished, List.filterMap_append,
          graph.filterMap_opened, List.nil_append, unfinished_cons, Frame.resume,
          Option.toList_some, List.singleton_append, List.mem_cons] at entered ⊢
        by_cases same : vertex = graph.target request
        · subst same
          simp
        · rw [Function.update_of_ne same, entered]
          simp [same]

/-- Every state that a search reaches is tracked. -/
theorem Runs.tracked {graph : Graph Vertex Request Node} {roots : List Request}
    {state : State Vertex Request Node} (runs : Runs graph (start roots) state) :
    Tracked state := by
  induction runs with
  | refl => exact tracked_start roots
  | tail _ step ih => exact step.tracked ih

/-- A step settles or keeps every debt when the visited request is settled by its visit. -/
theorem Step.owed {graph : Graph Vertex Request Node}
    {state next : State Vertex Request Node} (step : Step graph state next)
    {Settled : Request → Node → Marks → Prop} {Debtor : Marks → Prop}
    (grows : ∀ request node marks marks', (marks.root = true → marks'.root = true) →
      (marks.strong = true → marks'.strong = true) →
      Settled request node marks → Settled request node marks')
    (settles : ∀ frame rest request later node marks, state.frames = frame :: rest →
      frame.pending = request :: later → Debtor frame.marks →
      next.entry (graph.target request) = some (node, marks) →
      (frame.marks.root = true → marks.root = true) →
      (frame.marks.strong = true → marks.strong = true) → Settled request node marks)
    {request : Request} (owed : Owed graph Settled Debtor state request) :
    Owed graph Settled Debtor next request := by
  rcases owed with ⟨node, marks, known, settled⟩ | ⟨debtor, member, debt, pending⟩
  · obtain ⟨marks', known', root, strong⟩ := step.entry_grows known
    exact .inl ⟨node, marks', known', grows _ _ _ _ root strong settled⟩
  · cases step with
    | pop frame rest entry order idle =>
        rcases List.mem_cons.mp member with rfl | member
        · rw [idle] at pending
          cases pending
        · exact .inr ⟨debtor, member, debt, pending⟩
    | meet frame rest entry order request' later node marks next' known =>
        rcases List.mem_cons.mp member with rfl | member
        · rw [next'] at pending
          rcases List.mem_cons.mp pending with rfl | pending
          · refine .inl ⟨node, marks.join debtor.marks, Function.update_self .., ?_⟩
            exact settles debtor rest request later node _ rfl next' debt
              (Function.update_self ..) (by simp +contextual) (by simp +contextual)
          · exact .inr ⟨debtor.resume later none, by simp, debt, pending⟩
        · exact .inr ⟨debtor, by simp [member], debt, pending⟩
    | load frame rest entry order request' later node next' unknown loads =>
        rcases List.mem_cons.mp member with rfl | member
        · rw [next'] at pending
          rcases List.mem_cons.mp pending with rfl | pending
          · refine .inl ⟨node, debtor.marks, Function.update_self .., ?_⟩
            exact settles debtor rest request later node _ rfl next' debt
              (Function.update_self ..) id id
          · exact .inr ⟨debtor.resume later (some (graph.target request')), by simp, debt,
              pending⟩
        · exact .inr ⟨debtor, by simp [member], debt, pending⟩

end GraphSearch
