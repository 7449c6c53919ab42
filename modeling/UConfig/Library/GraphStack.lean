/-
This file bounds the stack of the search by the vertices that have entered, and it proves that a
search with a bounded stack ends.
-/

import UConfig.Library.GraphSearch
import Mathlib.Data.List.Nodup
import Mathlib.Data.DFinsupp.WellFounded

namespace GraphSearch

variable {Vertex Request Node : Type*}

/-- Below a strong frame there are only strong frames. -/
def StrongBelow (frames : List (Frame Vertex Request)) : Prop :=
  frames.Pairwise fun above below => above.marks.strong = true → below.marks.strong = true

def strongCount (frames : List (Frame Vertex Request)) : Nat :=
  frames.countP fun frame => frame.marks.strong

def State.EnteredStrong (state : State Vertex Request Node) (vertex : Vertex) : Prop :=
  ∃ node marks, state.entry vertex = some (node, marks) ∧ marks.strong = true

/-- Every strong frame but the first one belongs to a strong vertex, and every vertex has at most
two frames. -/
structure Balanced (state : State Vertex Request Node) : Prop where
  below : StrongBelow state.frames
  strong : ∃ vertices : List Vertex, vertices.Nodup ∧
    (∀ vertex ∈ vertices, state.EnteredStrong vertex) ∧
    strongCount state.frames ≤ vertices.length + 1
  frames : state.frames.length ≤ 2 * state.size + 1

/-- One frame with the roots is balanced. -/
theorem balanced_start (roots : List Request) :
    Balanced (start roots : State Vertex Request Node) where
  below := List.pairwise_singleton _ _
  strong := ⟨[], List.nodup_nil, fun _ member => (by cases member), Nat.le_refl 1⟩
  frames := Nat.le_refl 1

/-- When the top frame is strong, all frames are. -/
theorem StrongBelow.strongCount_eq {frame : Frame Vertex Request}
    {rest : List (Frame Vertex Request)} (below : StrongBelow (frame :: rest))
    (strong : frame.marks.strong = true) :
    strongCount (frame :: rest) = (frame :: rest).length := by
  rw [strongCount, List.countP_eq_length]
  intro other member
  rcases List.mem_cons.mp member with rfl | under
  · exact strong
  · exact (List.pairwise_cons.mp below).1 other under strong

/-- Strong frames can be pushed on a strong frame, and weak ones on any frame. -/
theorem StrongBelow.push {top : Frame Vertex Request} {rest : List (Frame Vertex Request)}
    (below : StrongBelow (top :: rest)) {pushed : List (Frame Vertex Request)}
    (sorted : StrongBelow pushed)
    (strong : ∀ child ∈ pushed, child.marks.strong = true → top.marks.strong = true) :
    StrongBelow (pushed ++ top :: rest) := by
  refine List.pairwise_append.mpr ⟨sorted, below, ?_⟩
  intro child member under isUnder isStrong
  have topStrong := strong child member isStrong
  rcases List.mem_cons.mp isUnder with rfl | isBelow
  · exact topStrong
  · exact (List.pairwise_cons.mp below).1 under isBelow topStrong

/-- In the frames of a new node the strong requests stand below the weak ones. -/
theorem Graph.opened_strongBelow (graph : Graph Vertex Request Node) (node : Node)
    (frame : Frame Vertex Request) : StrongBelow (graph.opened node frame) := by
  rw [opened]
  split
  case isTrue => simp [StrongBelow]
  case isFalse => exact List.Pairwise.nil

/-- Revealed frames stand in the same order. -/
theorem Graph.revealed_strongBelow (graph : Graph Vertex Request Node) (node : Node)
    (marks : Marks) (frame : Frame Vertex Request) :
    StrongBelow (graph.revealed node marks frame) := by
  rw [revealed]
  split
  case isTrue => exact List.pairwise_singleton _ _
  case isFalse => exact List.Pairwise.nil

/-- Distinct entered vertices are not more than the vertices that have entered. -/
theorem Tracked.length_le {state : State Vertex Request Node} (tracked : Tracked state)
    {vertices : List Vertex} (nodup : vertices.Nodup)
    (entered : ∀ vertex ∈ vertices, state.Entered vertex) : vertices.length ≤ state.size := by
  have inside : vertices ⊆ state.unfinished ++ state.order := fun vertex member =>
    List.mem_append.mpr ((tracked.entered vertex).mp (entered vertex member))
  have fits := (List.subperm_of_subset nodup inside).length_le
  rwa [List.length_append] at fits

/-- When the top frame is strong, the stack has a frame for each strong vertex and one more. -/
theorem Balanced.length_le {frame : Frame Vertex Request} {rest : List (Frame Vertex Request)}
    {entry : Vertex → Option (Node × Marks)} {order : List Vertex}
    (balanced : Balanced ⟨frame :: rest, entry, order⟩)
    (tracked : Tracked ⟨frame :: rest, entry, order⟩) (strong : frame.marks.strong = true) :
    (frame :: rest).length ≤
      (⟨frame :: rest, entry, order⟩ : State Vertex Request Node).size + 1 := by
  obtain ⟨vertices, nodup, entered, count⟩ := balanced.strong
  have fits := tracked.length_le nodup fun vertex member => by
    obtain ⟨node, marks, known, _⟩ := entered vertex member
    exact ⟨node, marks, known⟩
  rw [balanced.below.strongCount_eq strong] at count
  omega

/-- The order of the frames does not depend on how far the top one has got. -/
theorem StrongBelow.resume {frame : Frame Vertex Request} {rest : List (Frame Vertex Request)}
    (below : StrongBelow (frame :: rest)) (later : List Request) (fresh : Option Vertex) :
    StrongBelow (frame.resume later fresh :: rest) :=
  List.pairwise_cons.mpr (List.pairwise_cons.mp below)

/-- Pushed frames add their own strong frames and nothing else. -/
theorem strongCount_push (pushed : List (Frame Vertex Request)) (frame : Frame Vertex Request)
    (rest : List (Frame Vertex Request)) (later : List Request) (fresh : Option Vertex) :
    strongCount (pushed ++ frame.resume later fresh :: rest) =
      strongCount pushed + strongCount (frame :: rest) := by
  rw [strongCount, List.countP_append, List.countP_cons]
  rw [strongCount, strongCount, List.countP_cons]
  rfl

/-- A vertex is revealed by a strong frame, or nothing is pushed. -/
theorem Graph.revealed_cases (graph : Graph Vertex Request Node) (node : Node) (marks : Marks)
    (frame : Frame Vertex Request) :
    graph.revealed node marks frame = [] ∨
    (frame.marks.strong = true ∧ marks.strong = false ∧
      (graph.revealed node marks frame).length = 1) := by
  rw [revealed]
  split
  case isTrue reveals =>
    simp only [Bool.and_eq_true, Bool.not_eq_true'] at reveals
    exact .inr ⟨reveals.1.1, reveals.1.2, rfl⟩
  case isFalse => exact .inl rfl

/-- A loaded vertex gets at most two frames, and at most one of them is strong. -/
theorem Graph.opened_count (graph : Graph Vertex Request Node) (node : Node)
    (frame : Frame Vertex Request) :
    (graph.opened node frame).length ≤ 2 ∧
      strongCount (graph.opened node frame) ≤ if frame.marks.strong then 1 else 0 := by
  rw [opened]
  split
  case isTrue =>
    cases strong : frame.marks.strong <;> simp [strongCount]
  case isFalse => exact ⟨Nat.zero_le _, Nat.zero_le _⟩

variable [DecidableEq Vertex]

/-- A vertex that has been entered as a strong one stays so. -/
theorem Step.enteredStrong {graph : Graph Vertex Request Node}
    {state next : State Vertex Request Node} (step : Step graph state next) {vertex : Vertex}
    (strong : state.EnteredStrong vertex) : next.EnteredStrong vertex := by
  obtain ⟨node, marks, known, isStrong⟩ := strong
  obtain ⟨marks', known', _, grows⟩ := step.entry_grows known
  exact ⟨node, marks', known', grows isStrong⟩

section

variable {graph : Graph Vertex Request Node} {frame : Frame Vertex Request}
  {rest : List (Frame Vertex Request)} {entry entry' : Vertex → Option (Node × Marks)}
  {order : List Vertex} {request : Request} {later : List Request} {node : Node} {marks : Marks}

omit [DecidableEq Vertex] in
/-- A visit stays balanced when every strong frame that it pushes belongs to a vertex that it turns
strong. -/
theorem Balanced.push (balanced : Balanced ⟨frame :: rest, entry, order⟩)
    {pushed : List (Frame Vertex Request)} {fresh : Option Vertex} (turned : List Vertex)
    (settled : pushed.filterMap Frame.fresh = []) (sorted : StrongBelow pushed)
    (onStrong : ∀ child ∈ pushed, child.marks.strong = true → frame.marks.strong = true)
    (keep : ∀ vertex, (⟨frame :: rest, entry, order⟩ : State Vertex Request Node).EnteredStrong
      vertex → ∃ node marks, entry' vertex = some (node, marks) ∧ marks.strong = true)
    (distinct : turned.Nodup)
    (turns : ∀ vertex ∈ turned,
      ¬ (⟨frame :: rest, entry, order⟩ : State Vertex Request Node).EnteredStrong vertex ∧
        ∃ node marks, entry' vertex = some (node, marks) ∧ marks.strong = true)
    (owned : strongCount pushed ≤ turned.length)
    (fits : pushed.length + (frame :: rest).length ≤ 2 * (fresh.toList.length +
      (⟨frame :: rest, entry, order⟩ : State Vertex Request Node).size) + 1) :
    Balanced ⟨pushed ++ frame.resume later fresh :: rest, entry', frame.fresh.toList ++ order⟩ := by
  obtain ⟨vertices, nodup, strong, count⟩ := balanced.strong
  refine ⟨(balanced.below.resume later fresh).push sorted onStrong,
    ⟨turned ++ vertices, ?_, ?_, ?_⟩, ?_⟩
  · refine List.nodup_append.mpr ⟨distinct, nodup, ?_⟩
    rintro vertex member other isOther rfl
    exact (turns vertex member).1 (strong vertex isOther)
  · intro vertex member
    rcases List.mem_append.mp member with isTurned | isStrong
    · exact (turns vertex isTurned).2
    · exact keep vertex (strong vertex isStrong)
  · dsimp only at count ⊢
    rw [strongCount_push, List.length_append]
    omega
  · rw [size_push settled frame rest later fresh entry entry' order, List.length_append]
    exact fits

/-- A vertex that is revealed pays for its frame by turning strong. -/
theorem balanced_meet (isNext : frame.pending = request :: later)
    (known : entry (graph.target request) = some (node, marks))
    (tracked : Tracked ⟨frame :: rest, entry, order⟩)
    (balanced : Balanced ⟨frame :: rest, entry, order⟩) :
    Balanced ⟨graph.revealed node marks frame ++ frame.resume later none :: rest,
      Function.update entry (graph.target request) (some (node, marks.join frame.marks)),
      frame.fresh.toList ++ order⟩ := by
  have step := Step.meet frame rest entry order request later node marks isNext known
  have settled := graph.filterMap_revealed node marks frame
  have sorted := graph.revealed_strongBelow node marks frame
  have onStrong : ∀ child ∈ graph.revealed node marks frame, child.marks.strong = true →
      frame.marks.strong = true :=
    fun child member isStrong => ((Graph.mem_revealed member).strong isStrong).1
  have frames := balanced.frames
  rcases graph.revealed_cases node marks frame with nothing | ⟨strong, weak, one⟩
  · refine balanced.push [] settled sorted onStrong (fun _ => step.enteredStrong)
      List.nodup_nil (fun _ member => (by cases member)) ?_ ?_
    · rw [nothing]
      exact Nat.le_refl 0
    · rw [nothing]
      dsimp only at frames
      simp only [List.length_nil, Option.toList_none, Nat.zero_add]
      exact frames
  · have count : strongCount (graph.revealed node marks frame) ≤ 1 :=
      List.countP_le_length.trans_eq one
    have inside := balanced.length_le tracked strong
    have entered : 1 ≤ (⟨frame :: rest, entry, order⟩ : State Vertex Request Node).size := by
      refine tracked.length_le (List.nodup_singleton (graph.target request)) ?_
      intro vertex member
      rw [List.mem_singleton.mp member]
      exact ⟨node, marks, known⟩
    refine balanced.push [graph.target request] settled sorted onStrong
      (fun _ => step.enteredStrong) (List.nodup_singleton _) ?_ count ?_
    · intro vertex member
      rw [List.mem_singleton.mp member]
      refine ⟨?_, node, marks.join frame.marks, Function.update_self .., ?_⟩
      · rintro ⟨node', marks', known', isStrong⟩
        dsimp only at known'
        rw [known] at known'
        cases known'
        rw [weak] at isStrong
        cases isStrong
      · rw [Marks.join_strong, strong, Bool.or_true]
    · simp only [Option.toList_none, List.length_nil]
      omega

/-- A vertex that is loaded pays for its frames by entering. -/
theorem balanced_load (isNext : frame.pending = request :: later)
    (unknown : entry (graph.target request) = none) (loads : graph.Loads request node)
    (balanced : Balanced ⟨frame :: rest, entry, order⟩) :
    Balanced ⟨graph.opened node frame ++ frame.resume later (some (graph.target request)) :: rest,
      Function.update entry (graph.target request) (some (node, frame.marks)),
      frame.fresh.toList ++ order⟩ := by
  have step := Step.load frame rest entry order request later node isNext unknown loads
  have settled := graph.filterMap_opened node frame
  have sorted := graph.opened_strongBelow node frame
  have onStrong : ∀ child ∈ graph.opened node frame, child.marks.strong = true →
      frame.marks.strong = true :=
    fun child member isStrong => ((Graph.mem_opened member).strong isStrong).1
  obtain ⟨length, count⟩ := graph.opened_count node frame
  have frames := balanced.frames
  have fits : (graph.opened node frame).length + (frame :: rest).length ≤
      2 * ((some (graph.target request)).toList.length +
        (⟨frame :: rest, entry, order⟩ : State Vertex Request Node).size) + 1 := by
    dsimp only at frames
    rw [Option.toList_some, List.length_singleton]
    omega
  by_cases strong : frame.marks.strong = true
  · rw [if_pos strong] at count
    refine balanced.push [graph.target request] settled sorted onStrong
      (fun _ => step.enteredStrong) (List.nodup_singleton _) ?_ count fits
    intro vertex member
    rw [List.mem_singleton.mp member]
    refine ⟨?_, node, frame.marks, Function.update_self .., strong⟩
    rintro ⟨node', marks', known', _⟩
    dsimp only at known'
    rw [unknown] at known'
    cases known'
  · rw [if_neg strong] at count
    exact balanced.push [] settled sorted onStrong (fun _ => step.enteredStrong)
      List.nodup_nil (fun _ member => (by cases member)) count fits

end

/-- A step keeps the balance between the frames and the entered vertices. -/
theorem Step.balanced {graph : Graph Vertex Request Node}
    {state next : State Vertex Request Node} (step : Step graph state next)
    (tracked : Tracked state) (balanced : Balanced state) : Balanced next := by
  cases step with
  | pop frame rest entry order idle =>
      obtain ⟨vertices, nodup, strong, count⟩ := balanced.strong
      have frames := balanced.frames
      refine ⟨(List.pairwise_cons.mp balanced.below).2, ⟨vertices, nodup, strong, ?_⟩, ?_⟩
      · exact ((List.sublist_cons_self frame rest).countP_le).trans count
      · rw [size_finish]
        rw [List.length_cons] at frames
        exact (Nat.le_succ _).trans frames
  | meet frame rest entry order request later node marks isNext known =>
      exact balanced_meet isNext known tracked balanced
  | load frame rest entry order request later node isNext unknown loads =>
      exact balanced_load isNext unknown loads balanced

/-- Every state that a search reaches is balanced. -/
theorem Runs.balanced {graph : Graph Vertex Request Node} {roots : List Request}
    {state : State Vertex Request Node} (runs : Runs graph (start roots) state) :
    Balanced state := by
  induction runs with
  | refl => exact balanced_start roots
  | tail runs step ih => exact step.balanced (Runs.tracked runs) ih

section

omit [DecidableEq Vertex]

/-- A slot is as high as the requests of its frame, and an empty slot is lower than any frame.
The slots are counted from the bottom of the stack. -/
def height (frames : List (Frame Vertex Request)) (slot : Nat) : Nat :=
  frames.reverse[slot]?.elim 0 fun frame => frame.pending.length + 1

/-- Frames on top do not change the heights below them. -/
theorem height_below (top : List (Frame Vertex Request)) {rest : List (Frame Vertex Request)}
    {slot : Nat} (below : slot < rest.length) : height (top ++ rest) slot = height rest slot := by
  have inside : slot < rest.reverse.length := by
    rw [List.length_reverse]
    exact below
  rw [height, List.reverse_append, List.getElem?_append_left inside, height]

/-- The height of a slot is the work of the frame that stands in it. -/
theorem height_top (top rest : List (Frame Vertex Request)) :
    height (top ++ rest) rest.length = top.getLast?.elim 0 fun frame => frame.pending.length + 1 := by
  have outside : rest.reverse.length ≤ rest.length := by rw [List.length_reverse]
  rw [height, List.reverse_append, List.getElem?_append_right outside, List.length_reverse,
    Nat.sub_self, ← List.head?_eq_getElem?, List.head?_reverse]

def heights (bound : Nat) (frames : List (Frame Vertex Request)) : Lex (Fin bound → Nat) :=
  toLex fun slot => height frames slot.val

/-- Whatever is pushed on a slot that gets lower makes the stack smaller. -/
theorem heights_lt {bound : Nat} {frame : Frame Vertex Request}
    {top rest : List (Frame Vertex Request)} (fits : (frame :: rest).length ≤ bound)
    (lower : height (top ++ rest) rest.length < frame.pending.length + 1) :
    heights bound (top ++ rest) < heights bound (frame :: rest) := by
  refine ⟨⟨rest.length, fits⟩, ?_, ?_⟩
  · intro slot below
    exact (height_below top below).trans (height_below [frame] below).symm
  · have before := height_top [frame] rest
    exact lower.trans_eq before.symm

/-- A request that has been taken lowers the height of its slot. -/
theorem height_resume {frame : Frame Vertex Request} {request : Request} {later : List Request}
    (isNext : frame.pending = request :: later) (pushed rest : List (Frame Vertex Request))
    (fresh : Option Vertex) :
    height ((pushed ++ [frame.resume later fresh]) ++ rest) rest.length <
      frame.pending.length + 1 := by
  rw [height_top, List.getLast?_concat, isNext]
  exact Nat.lt_succ_self _

end

/-- Each step lowers the heights, which are compared from the bottom. -/
theorem Step.heights_lt {graph : Graph Vertex Request Node} {bound : Nat}
    {state next : State Vertex Request Node} (step : Step graph state next)
    (fits : state.frames.length ≤ bound) :
    heights bound next.frames < heights bound state.frames := by
  have push : ∀ (frame : Frame Vertex Request) (pushed rest : List (Frame Vertex Request))
      (request : Request) (later : List Request) (fresh : Option Vertex),
      (frame :: rest).length ≤ bound → frame.pending = request :: later →
      heights bound (pushed ++ frame.resume later fresh :: rest) < heights bound (frame :: rest) := by
    intro frame pushed rest request later fresh fits isNext
    have lower := GraphSearch.heights_lt fits (height_resume isNext pushed rest fresh)
    rwa [List.append_assoc, List.singleton_append] at lower
  cases step with
  | pop frame rest entry order idle =>
      have lower : height ([] ++ rest) rest.length < frame.pending.length + 1 := by
        rw [height_top]
        exact Nat.succ_pos _
      exact GraphSearch.heights_lt fits lower
  | meet frame rest entry order request later node marks isNext known =>
      exact push frame _ rest request later none fits isNext
  | load frame rest entry order request later node isNext unknown loads =>
      exact push frame _ rest request later _ fits isNext

/-- A search with a bounded stack ends, also in a graph with cycles. -/
theorem wellFounded_step (graph : Graph Vertex Request Node) (bound : Nat) :
    WellFounded fun next state : State Vertex Request Node =>
      Step graph state next ∧ state.frames.length ≤ bound :=
  Subrelation.wf (fun ⟨step, fits⟩ => step.heights_lt fits)
    (InvImage.wf (fun state : State Vertex Request Node => heights bound state.frames) wellFounded_lt)

end GraphSearch
