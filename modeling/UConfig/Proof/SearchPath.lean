/-
This file proves which search list a sequence of paths gives.
-/

import UConfig.Program.SearchPath
import UConfig.Proof.Components

namespace UConfig

open LinkedList (IsList)

inductive PathCall where
  | append (path : S8)
  | prepend (path : S8)

def PathCall.run (state : Nodes × Search) : PathCall → Option (Nodes × Search)
  | append path => some (appendPath state.1 state.2 path)
  | prepend path => prependPath state.1 state.2 path

def runCalls (state : Nodes × Search) (calls : List PathCall) : Option (Nodes × Search) :=
  calls.foldlM PathCall.run state

/-- The components of a path are added at the end or in front. -/
def PathCall.extend (delim : UInt8) (dirs : List S8) : PathCall → List S8
  | append path => dirs ++ components path delim
  | prepend path => components path delim ++ dirs

def searchDirs (delim : UInt8) (calls : List PathCall) : List S8 :=
  calls.foldl (PathCall.extend delim) []

/-- The search list holds these directories, and its tail is the place of the last link. -/
def Lists (state : Nodes × Search) (dirs : List S8) : Prop :=
  ∃ cells, IsList state.1 state.2.list.head state.2.list.tail cells ∧ cells.map Prod.snd = dirs

/-- Nodes have been added to a list, and nothing but this list has changed. -/
structure Grown (nodes : Nodes) (cells added : List (Nat × S8)) (nodes' : Nodes) (list : S8List) :
    Prop where
  isList : IsList nodes' list.head list.tail (cells ++ added)
  length : nodes.length ≤ nodes'.length
  fresh : ∀ index ∈ added.map Prod.fst, nodes.length ≤ index
  older : ∀ index, index ∉ cells.map Prod.fst → index < nodes.length →
    nodes'[index]? = nodes[index]?

/-- An appended string grows the list by one cell. -/
theorem append_grown {nodes : Nodes} {list : S8List} {cells : List (Nat × S8)}
    (isList : IsList nodes list.head list.tail cells) (str : S8) :
    Grown nodes cells [(nodes.length, str)] (list.append nodes str).1 (list.append nodes str).2 := by
  obtain ⟨head, tail⟩ := list
  cases tail with
  | none =>
      have empty : cells = [] := isList.tail_eq_none_iff.mp rfl
      subst empty
      refine ⟨IsList.single nodes str, by simp [S8List.append, S8List.store], by simp, ?_⟩
      intro index _ inside
      exact List.getElem?_append_left inside
  | some place =>
      cases place with
      | start =>
          have last := isList.last
          cases found : cells.getLast? <;> rw [found] at last <;> cases last
      | cell own =>
          refine ⟨isList.push str, ?_, by simp, ?_⟩
          · simp [S8List.append, S8List.store, LinkedList.link]
          · intro index outside inside
            have different : own ≠ index := by
              rintro rfl
              exact outside isList.last_mem
            exact (LinkedList.link_of_ne _ _ different).trans (List.getElem?_append_left inside)

/-- A list that grows twice has grown by both parts. -/
theorem Grown.trans {nodes nodes' nodes'' : Nodes} {list list' : S8List}
    {cells added added' : List (Nat × S8)} (grown : Grown nodes cells added nodes' list)
    (grown' : Grown nodes' (cells ++ added) added' nodes'' list') :
    Grown nodes cells (added ++ added') nodes'' list' where
  isList := by
    rw [← List.append_assoc]
    exact grown'.isList
  length := grown.length.trans grown'.length
  fresh index member := by
    rw [List.map_append, List.mem_append] at member
    rcases member with first | second
    · exact grown.fresh index first
    · exact grown.length.trans (grown'.fresh index second)
  older index outside inside := by
    have apart : index ∉ (cells ++ added).map Prod.fst := by
      rw [List.map_append, List.mem_append]
      rintro (old | new)
      · exact outside old
      · exact absurd (grown.fresh index new) (Nat.not_le.mpr inside)
    rw [grown'.older index apart (inside.trans_le grown.length), grown.older index outside inside]

/-- A path adds its components at the end. -/
theorem appendPath_grown {nodes : Nodes} {dirs : Search} {cells : List (Nat × S8)}
    (isList : IsList nodes dirs.list.head dirs.list.tail cells) (path : S8) :
    (appendPath nodes dirs path).2.delim = dirs.delim ∧
      ∃ added, Grown nodes cells added (appendPath nodes dirs path).1
          (appendPath nodes dirs path).2.list ∧
        added.map Prod.snd = components path dirs.delim := by
  fun_induction appendPath nodes dirs path generalizing cells with
  | case1 nodes dirs =>
      refine ⟨rfl, [], ⟨by rwa [List.append_nil], Nat.le_refl _, by simp, fun _ _ _ => rfl⟩, rfl⟩
  | case2 nodes dirs path nonempty c empty =>
      rename_i ih
      obtain ⟨delim, added, grown, values⟩ := ih isList
      refine ⟨delim, added, grown, ?_⟩
      rw [values, components_cut path, if_pos empty]
      rfl
  | case3 nodes dirs path nonempty c filled appended =>
      rename_i ih
      have first := append_grown isList c.head
      obtain ⟨delim, added, grown, values⟩ := ih first.isList
      refine ⟨delim, (nodes.length, c.head) :: added, first.trans grown, ?_⟩
      rw [List.map_cons, values, components_cut path, if_neg filled]
      rfl

/-- An appended path adds its directories behind the others. -/
theorem appendPath_lists {state : Nodes × Search} {dirs : List S8} (lists : Lists state dirs)
    (path : S8) : (appendPath state.1 state.2 path).2.delim = state.2.delim ∧
      Lists (appendPath state.1 state.2 path) (dirs ++ components path state.2.delim) := by
  obtain ⟨cells, isList, rfl⟩ := lists
  obtain ⟨delim, added, grown, values⟩ := appendPath_grown isList path
  exact ⟨delim, cells ++ added, grown.isList, by rw [List.map_append, values]⟩

/-- A path is put in front of an empty list, or in front of any list when it has components. -/
theorem prependPath_lists {state : Nodes × Search} {dirs : List S8} (lists : Lists state dirs)
    {path : S8} (fits : dirs ≠ [] → components path state.2.delim ≠ []) :
    ∃ state', prependPath state.1 state.2 path = some state' ∧
      state'.2.delim = state.2.delim ∧ Lists state' (components path state.2.delim ++ dirs) := by
  rw [prependPath]
  split
  case isTrue empty =>
    obtain ⟨delim, appended⟩ := appendPath_lists lists path
    obtain ⟨cells, isList, rfl⟩ := lists
    rw [isList.head_eq_none_iff.mp empty, List.map_nil] at appended
    rw [isList.head_eq_none_iff.mp empty, List.map_nil, List.append_nil]
    exact ⟨_, rfl, delim, appended⟩
  case isFalse filled =>
    obtain ⟨cells, isList, rfl⟩ := lists
    have nonempty : cells ≠ [] := fun empty => filled (isList.head_eq_none_iff.mpr empty)
    have start : IsList state.1 (newSearch state.2.delim).list.head
      (newSearch state.2.delim).list.tail [] := IsList.nil state.1
    obtain ⟨_, added, grown, values⟩ := appendPath_grown start path
    have added_nonempty : added ≠ [] := by
      rintro rfl
      exact fits (by simpa using nonempty) values.symm
    obtain ⟨index, last⟩ := grown.isList.exists_last added_nonempty
    have front := grown.isList
    rw [last, List.nil_append] at front
    have back : IsList (appendPath state.1 (newSearch state.2.delim) path).1 state.2.list.head
        state.2.list.tail cells :=
      isList.frame fun index _ inside => grown.older index (by simp) inside
    have apart : (added.map Prod.fst).Disjoint (cells.map Prod.fst) := by
      intro index new old
      exact absurd (isList.chain.inside index old) (Nat.not_lt.mpr (grown.fresh index new))
    dsimp only
    rw [last]
    refine ⟨_, rfl, rfl, added ++ cells, front.splice back nonempty apart, ?_⟩
    rw [List.map_append, values]
    rfl

/-- The tail of a list without components is null. -/
theorem prependPath_null {state : Nodes × Search} {dirs : List S8} (lists : Lists state dirs)
    (filled : dirs ≠ []) {path : S8} (nothing : components path state.2.delim = []) :
    prependPath state.1 state.2 path = none := by
  obtain ⟨cells, isList, rfl⟩ := lists
  have nonempty : state.2.list.head ≠ none := by
    intro empty
    exact filled (by rw [isList.head_eq_none_iff.mp empty]; rfl)
  have start : IsList state.1 (newSearch state.2.delim).list.head
    (newSearch state.2.delim).list.tail [] := IsList.nil state.1
  obtain ⟨_, added, grown, values⟩ := appendPath_grown start path
  have none : added = [] := List.map_eq_nil_iff.mp (values.trans nothing)
  rw [prependPath, if_neg nonempty]
  dsimp only
  rw [grown.isList.tail_eq_none_iff.mpr none]
  rfl

/-- A path without components is never put in front of a list that is not empty. -/
def PrependsComponents (delim : UInt8) (calls : List PathCall) : Prop :=
  ∀ before path after, calls = before ++ .prepend path :: after →
    searchDirs delim before ≠ [] → components path delim ≠ []

/-- The last call is run last. -/
theorem runCalls_concat (state : Nodes × Search) (calls : List PathCall) (call : PathCall) :
    runCalls state (calls ++ [call]) = (runCalls state calls).bind fun state => call.run state := by
  rw [runCalls, List.foldlM_append]
  simp only [List.foldlM_cons, List.foldlM_nil, bind_pure]
  rfl

/-- The last call extends the directories last. -/
theorem searchDirs_concat (delim : UInt8) (calls : List PathCall) (call : PathCall) :
    searchDirs delim (calls ++ [call]) = call.extend delim (searchDirs delim calls) :=
  List.foldl_concat _ _ _ _

/-- Only the last call has to be checked after calls that have been checked. -/
theorem prependsComponents_concat {delim : UInt8} {calls : List PathCall} {call : PathCall} :
    PrependsComponents delim (calls ++ [call]) ↔ PrependsComponents delim calls ∧
      ∀ path, call = .prepend path → searchDirs delim calls ≠ [] → components path delim ≠ [] := by
  constructor
  · intro safe
    constructor
    · intro before path after shape
      exact safe before path (after ++ [call]) (by rw [shape]; simp)
    · rintro path rfl
      exact safe calls path [] rfl
  · rintro ⟨earlier, last⟩ before path after shape
    rcases List.eq_nil_or_concat' after with rfl | ⟨behind, other, rfl⟩
    · obtain ⟨rfl, same⟩ := List.append_inj' shape rfl
      exact last path (List.singleton_inj.mp same)
    · apply earlier before path behind
      rw [← List.cons_append, ← List.append_assoc] at shape
      exact (List.append_inj' shape rfl).1

/-- A sequence of calls either gives the list of its paths or dereferences a null tail. -/
theorem runCalls_outcome (nodes : Nodes) (delim : UInt8) (calls : List PathCall) :
    (PrependsComponents delim calls ∧ ∃ state, runCalls (nodes, newSearch delim) calls = some state ∧
      state.2.delim = delim ∧ Lists state (searchDirs delim calls)) ∨
    (¬PrependsComponents delim calls ∧ runCalls (nodes, newSearch delim) calls = none) := by
  induction calls using List.reverseRecOn with
  | nil =>
      left
      refine ⟨?_, (nodes, newSearch delim), rfl, rfl, [], IsList.nil nodes, rfl⟩
      intro before path after shape
      simp at shape
  | append_singleton calls call ih =>
      rw [runCalls_concat, prependsComponents_concat, searchDirs_concat]
      rcases ih with ⟨safe, state, run, rfl, lists⟩ | ⟨unsafe', run⟩
      · rw [run]
        cases call with
        | append path =>
            obtain ⟨delim, appended⟩ := appendPath_lists lists path
            exact .inl ⟨⟨safe, nofun⟩, _, rfl, delim, appended⟩
        | prepend path =>
            by_cases fits : searchDirs state.2.delim calls ≠ [] → components path state.2.delim ≠ []
            · obtain ⟨state', prepended, delim, lists'⟩ := prependPath_lists lists fits
              refine .inl ⟨⟨safe, ?_⟩, state', prepended, delim, lists'⟩
              rintro other ⟨⟩
              exact fits
            · rw [Classical.not_imp, not_not] at fits
              right
              refine ⟨fun both => both.2 path rfl fits.1 fits.2, ?_⟩
              exact prependPath_null lists fits.1 fits.2
      · right
        rw [run]
        exact ⟨fun both => unsafe' both.1, rfl⟩

/-- In every state of the run the list holds the components of the paths so far and its tail is
the place of the last link, exactly when no path without components is put in front of a list that
is not empty. -/
theorem searchPath_calls (nodes : Nodes) (delim : UInt8) (calls : List PathCall) :
    (∀ before, before <+: calls → ∃ state, runCalls (nodes, newSearch delim) before = some state ∧
      Lists state (searchDirs delim before)) ↔ PrependsComponents delim calls := by
  constructor
  · intro always
    obtain ⟨state, run, _⟩ := always calls (List.prefix_refl calls)
    rcases runCalls_outcome nodes delim calls with ⟨safe, _⟩ | ⟨_, fails⟩
    · exact safe
    · rw [run] at fails
      cases fails
  · rintro safe before ⟨after, rfl⟩
    have earlier : PrependsComponents delim before := fun first path rest shape =>
      safe first path (rest ++ after) (by rw [shape]; simp)
    rcases runCalls_outcome nodes delim before with ⟨_, state, run, _, lists⟩ | ⟨fails, _⟩
    · exact ⟨state, run, lists⟩
    · exact absurd earlier fails

/-- An empty path in front of a list that is not empty dereferences a null tail. -/
theorem prependPath_empty : runCalls ([], newSearch ':'.toUInt8)
    [.append (S "/usr/lib/pkgconfig"), .prepend []] = none := by
  have start : Lists ([], newSearch ':'.toUInt8) [] := ⟨[], IsList.nil [], rfl⟩
  obtain ⟨_, appended⟩ := appendPath_lists start (S "/usr/lib/pkgconfig")
  have null := prependPath_null appended (by decide) (components_nil _)
  change runCalls _ ([.append (S "/usr/lib/pkgconfig")] ++ [.prepend []]) = none
  rw [runCalls_concat]
  exact null

end UConfig
