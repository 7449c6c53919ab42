/-
This file gives the search list, which is a linked list with a pointer to its last link.
-/

import UConfig.Library.LinkedList
import UConfig.Program.WriteArgs

namespace UConfig

open LinkedList (Place)

/-- The nodes that have been allocated, where a cell holds the string of its node. -/
abbrev Nodes := LinkedList.Heap S8

/-- The tail is null until the first string is appended. -/
structure S8List where
  head : Option Nat
  tail : Option Place

/-- A store through a pointer to a link. -/
def S8List.store (list : S8List) (nodes : Nodes) (place : Place) (node : Option Nat) :
    Nodes × S8List :=
  match place with
  | .start => (nodes, { list with head := node })
  | .cell index => (LinkedList.link nodes index node, list)

def S8List.append (list : S8List) (nodes : Nodes) (str : S8) : Nodes × S8List :=
  let tail := list.tail.getD .start
  let node := nodes.length
  let stored := list.store (nodes ++ [⟨str, none⟩]) tail (some node)
  (stored.1, { stored.2 with tail := some (.cell node) })

structure Search where
  list : S8List
  delim : UInt8

def newSearch (delim : UInt8) : Search := ⟨⟨none, none⟩, delim⟩

def appendPath (nodes : Nodes) (dirs : Search) (path : S8) : Nodes × Search :=
  if path = [] then (nodes, dirs)
  else
    let c := s8Cut path dirs.delim
    if c.head = [] then appendPath nodes dirs c.tail
    else
      let appended := dirs.list.append nodes c.head
      appendPath appended.1 { dirs with list := appended.2 } c.tail
termination_by path.length
decreasing_by all_goals exact s8Cut_tail_lt ‹_› dirs.delim

/-- The result is none when a null tail is dereferenced. -/
def prependPath (nodes : Nodes) (dirs : Search) (path : S8) : Option (Nodes × Search) :=
  if dirs.list.head = none then
    -- Empty, so appending is the same as prepending.
    some (appendPath nodes dirs path)
  else
    -- Append to an empty search, then transplant in front.
    let temp := appendPath nodes (newSearch dirs.delim) path
    temp.2.list.tail.map fun place =>
      let stored := temp.2.list.store temp.1 place dirs.list.head
      (stored.1, { dirs with list := { dirs.list with head := stored.2.head } })

end UConfig
