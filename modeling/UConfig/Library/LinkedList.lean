/-
This file gives linked lists of cells, where a list keeps the place of its last link.
-/

import Mathlib.Data.List.Nodup
import Mathlib.Data.List.Perm.Subperm

namespace LinkedList

variable {Value : Type*}

structure Cell (Value : Type*) where
  value : Value
  next : Option Nat

/-- A cell is known by its index. -/
abbrev Heap (Value : Type*) := List (Cell Value)

/-- A link stands at the start of a list or in one of the cells. -/
inductive Place where
  | start
  | cell (index : Nat)

/-- The link of a cell is changed. -/
def link (heap : Heap Value) (index : Nat) (next : Option Nat) : Heap Value :=
  heap.modify index fun cell => { cell with next := next }

/-- The links lead from the first link over these cells to the last link. -/
inductive Segment (heap : Heap Value) : Option Nat → List (Nat × Value) → Option Nat → Prop
  | nil (first : Option Nat) : Segment heap first [] first
  | cons {index : Nat} {value : Value} {next last : Option Nat} {cells : List (Nat × Value)}
      (here : heap[index]? = some ⟨value, next⟩) (others : Segment heap next cells last) :
      Segment heap (some index) ((index, value) :: cells) last

/-- Segments that meet are one segment. -/
theorem Segment.append {heap : Heap Value} {first middle last : Option Nat}
    {cells cells' : List (Nat × Value)} (segment : Segment heap first cells middle)
    (segment' : Segment heap middle cells' last) : Segment heap first (cells ++ cells') last := by
  induction segment with
  | nil => exact segment'
  | cons here _ ih => exact .cons here (ih segment')

/-- A segment stays what it is when none of its cells changes. -/
theorem Segment.frame {heap heap' : Heap Value} {first last : Option Nat}
    {cells : List (Nat × Value)} (segment : Segment heap first cells last)
    (same : ∀ index ∈ cells.map Prod.fst, index < heap.length → heap'[index]? = heap[index]?) :
    Segment heap' first cells last := by
  induction segment with
  | nil => exact .nil _
  | cons here _ ih =>
      rw [List.map_cons, List.forall_mem_cons] at same
      have inside := (List.getElem?_eq_some_iff.mp here).1
      exact .cons ((same.1 inside).trans here) (ih same.2)

/-- All cells of a segment are on the heap. -/
theorem Segment.inside {heap : Heap Value} {first last : Option Nat}
    {cells : List (Nat × Value)} (segment : Segment heap first cells last) :
    ∀ index ∈ cells.map Prod.fst, index < heap.length := by
  induction segment with
  | nil => simp
  | cons here _ ih =>
      rw [List.map_cons, List.forall_mem_cons]
      exact ⟨(List.getElem?_eq_some_iff.mp here).1, ih⟩

/-- A link changes no other cell. -/
theorem link_of_ne (heap : Heap Value) {index other : Nat} (next : Option Nat)
    (different : index ≠ other) : (link heap index next)[other]? = heap[other]? :=
  List.getElem?_modify_ne _ _ different

/-- The last link of a segment can lead to any other cell. -/
theorem Segment.relink {heap : Heap Value} {first last : Option Nat}
    {cells : List (Nat × Value)} {index : Nat} {value : Value}
    (segment : Segment heap first (cells ++ [(index, value)]) last)
    (distinct : ((cells ++ [(index, value)]).map Prod.fst).Nodup) (next : Option Nat) :
    Segment (link heap index next) first (cells ++ [(index, value)]) next := by
  induction cells generalizing first with
  | nil =>
      cases segment with
      | cons here others =>
          refine .cons ?_ (.nil next)
          rw [link, List.getElem?_modify_eq, here]
          rfl
  | cons cell cells ih =>
      rw [List.cons_append, List.map_cons, List.nodup_cons] at distinct
      cases segment with
      | @cons own _ _ _ _ here others =>
          have different : index ≠ own := by
            rintro rfl
            exact distinct.1 (by simp)
          exact .cons ((link_of_ne heap next different).trans here) (ih others distinct.2)

/-- The walk along the links is cut off when it is longer than the fuel. -/
def walk (heap : Heap Value) : Nat → Option Nat → List Value
  | _, none => []
  | 0, some _ => []
  | fuel + 1, some index =>
      match heap[index]? with
      | none => []
      | some cell => cell.value :: walk heap fuel cell.next

/-- A walk with enough fuel finds the values of a list. -/
theorem Segment.walk_eq {heap : Heap Value} {first last : Option Nat}
    {cells : List (Nat × Value)} (segment : Segment heap first cells last) (ends : last = none)
    {fuel : Nat} (enough : cells.length ≤ fuel) :
    walk heap fuel first = cells.map Prod.snd := by
  induction segment generalizing fuel with
  | nil => rw [ends, walk]; rfl
  | cons here _ ih =>
      obtain ⟨fuel, rfl⟩ : ∃ less, fuel = less + 1 :=
        ⟨fuel - 1, by rw [List.length_cons] at enough; omega⟩
      rw [walk, here]
      dsimp only
      rw [ih ends (Nat.le_of_succ_le_succ enough)]
      rfl

/-- The place of the last link belongs to the last cell, and an empty list has none. -/
structure IsList (heap : Heap Value) (head : Option Nat) (tail : Option Place)
    (cells : List (Nat × Value)) : Prop where
  chain : Segment heap head cells none
  distinct : (cells.map Prod.fst).Nodup
  last : tail = cells.getLast?.map fun cell => .cell cell.1

/-- Without a head and a tail the list is empty. -/
theorem IsList.nil (heap : Heap Value) : IsList heap none none [] :=
  ⟨.nil none, List.nodup_nil, rfl⟩

/-- Only the empty list has no head. -/
theorem IsList.head_eq_none_iff {heap : Heap Value} {head : Option Nat} {tail : Option Place}
    {cells : List (Nat × Value)} (isList : IsList heap head tail cells) :
    head = none ↔ cells = [] := by
  obtain ⟨chain, _, _⟩ := isList
  cases chain with
  | nil => exact iff_of_true rfl rfl
  | cons => exact iff_of_false nofun (List.cons_ne_nil _ _)

/-- Only the empty list has no tail. -/
theorem IsList.tail_eq_none_iff {heap : Heap Value} {head : Option Nat} {tail : Option Place}
    {cells : List (Nat × Value)} (isList : IsList heap head tail cells) :
    tail = none ↔ cells = [] := by
  rw [isList.last, Option.map_eq_none_iff, List.getLast?_eq_none_iff]

/-- The tail of a list that is not empty is a cell. -/
theorem IsList.exists_last {heap : Heap Value} {head : Option Nat} {tail : Option Place}
    {cells : List (Nat × Value)} (isList : IsList heap head tail cells) (nonempty : cells ≠ []) :
    ∃ index, tail = some (.cell index) := by
  rw [isList.last, List.getLast?_eq_getLast_of_ne_nil nonempty]
  exact ⟨_, rfl⟩

/-- The place of the last link is in one of the cells. -/
theorem IsList.last_mem {heap : Heap Value} {head : Option Nat} {index : Nat}
    {cells : List (Nat × Value)} (isList : IsList heap head (some (.cell index)) cells) :
    index ∈ cells.map Prod.fst := by
  obtain ⟨cell, isLast, same⟩ := Option.map_eq_some_iff.mp isList.last.symm
  cases same
  exact List.mem_map_of_mem (List.mem_of_getLast? isLast)

/-- The cells of a list are as many as the heap has at most. -/
theorem IsList.length_le {heap : Heap Value} {head : Option Nat} {tail : Option Place}
    {cells : List (Nat × Value)} (isList : IsList heap head tail cells) :
    cells.length ≤ heap.length := by
  have inside : cells.map Prod.fst ⊆ List.range heap.length := fun index member =>
    List.mem_range.mpr (isList.chain.inside index member)
  have fits := (isList.distinct.subperm inside).length_le
  rwa [List.length_map, List.length_range] at fits

/-- A walk along the links reads the values in their order. -/
theorem IsList.walk_eq {heap : Heap Value} {head : Option Nat} {tail : Option Place}
    {cells : List (Nat × Value)} (isList : IsList heap head tail cells) :
    walk heap heap.length head = cells.map Prod.snd :=
  isList.chain.walk_eq rfl isList.length_le

/-- A list stays what it is when none of its cells changes. -/
theorem IsList.frame {heap heap' : Heap Value} {head : Option Nat} {tail : Option Place}
    {cells : List (Nat × Value)} (isList : IsList heap head tail cells)
    (same : ∀ index ∈ cells.map Prod.fst, index < heap.length → heap'[index]? = heap[index]?) :
    IsList heap' head tail cells :=
  ⟨isList.chain.frame same, isList.distinct, isList.last⟩

/-- The first cell of an empty list is a new one. -/
theorem IsList.single (heap : Heap Value) (value : Value) :
    IsList (heap ++ [⟨value, none⟩]) (some heap.length) (some (.cell heap.length))
      [(heap.length, value)] where
  chain := .cons (by simp) (.nil none)
  distinct := List.nodup_singleton _
  last := rfl

/-- The last link of a list leads to another list. -/
theorem IsList.splice {heap : Heap Value} {head head' : Option Nat} {tail' : Option Place}
    {index : Nat} {cells cells' : List (Nat × Value)}
    (isList : IsList heap head (some (.cell index)) cells)
    (isList' : IsList heap head' tail' cells') (nonempty : cells' ≠ [])
    (apart : (cells.map Prod.fst).Disjoint (cells'.map Prod.fst)) :
    IsList (link heap index head') head tail' (cells ++ cells') := by
  obtain rfl | ⟨init, ⟨own, value⟩, rfl⟩ := List.eq_nil_or_concat' cells
  · cases isList.last
  · have same : index = own := by
      have last := isList.last
      rw [List.getLast?_concat] at last
      cases last
      rfl
    subst same
    have behind : IsList (link heap index head') head' tail' cells' := by
      apply isList'.frame
      intro other member _
      apply link_of_ne
      rintro rfl
      exact apart (by simp) member
    refine ⟨(isList.chain.relink isList.distinct head').append behind.chain, ?_, ?_⟩
    · rw [List.map_append]
      exact isList.distinct.append isList'.distinct apart
    · rw [List.getLast?_append_of_ne_nil _ nonempty]
      exact isList'.last

/-- A new cell is put behind the last one. -/
theorem IsList.push {heap : Heap Value} {head : Option Nat} {index : Nat}
    {cells : List (Nat × Value)} (isList : IsList heap head (some (.cell index)) cells)
    (value : Value) :
    IsList (link (heap ++ [⟨value, none⟩]) index (some heap.length)) head
      (some (.cell heap.length)) (cells ++ [(heap.length, value)]) := by
  have kept : IsList (heap ++ [⟨value, none⟩]) head (some (.cell index)) cells :=
    isList.frame fun other _ inside => List.getElem?_append_left inside
  apply kept.splice (IsList.single heap value) (List.cons_ne_nil _ _)
  intro other old new
  have inside := isList.chain.inside other old
  rw [List.mem_singleton.mp new] at inside
  exact Nat.lt_irrefl _ inside

end LinkedList
