/-
This file gives the map operations of a four-way trie that consumes a hash from its top bits.
-/

import Mathlib.Logic.Function.Basic

/-- A node stores one binding and chooses a child by the top two bits of the hash. -/
inductive HashTrie (Key Value : Type*) where
  | leaf
  | node (key : Key) (value : Value) (child : Fin 4 → HashTrie Key Value)

namespace HashTrie

variable {Key Value : Type*} [DecidableEq Key]

/-- The top two bits select the child. -/
def branch (hash : UInt32) : Fin 4 := Fin.ofNat 4 (hash >>> 30).toNat

/-- The walk below a node shifts the used bits out of the hash. -/
def find (hash : UInt32) (key : Key) : HashTrie Key Value → Option Value
  | leaf => none
  | node stored value child =>
      if stored = key then some value else find (hash <<< 2) key (child (branch hash))

/-- A missing key gets a new node at the end of its walk. -/
def insert (hash : UInt32) (key : Key) (fresh : Value) : HashTrie Key Value → HashTrie Key Value
  | leaf => node key fresh fun _ => leaf
  | node stored value child =>
      if stored = key then node stored value child
      else node stored value fun slot =>
        if slot = branch hash then insert (hash <<< 2) key fresh (child slot) else child slot

/-- A present key gets its value changed in place. -/
def modify (hash : UInt32) (key : Key) (change : Value → Value) :
    HashTrie Key Value → HashTrie Key Value
  | leaf => leaf
  | node stored value child =>
      if stored = key then node stored (change value) child
      else node stored value fun slot =>
        if slot = branch hash then modify (hash <<< 2) key change (child slot) else child slot

/-- The number of nodes. -/
def size : HashTrie Key Value → Nat
  | leaf => 0
  | node _ _ child => 1 + size (child 0) + size (child 1) + size (child 2) + size (child 3)

/-- An inserted key has its old value, or the fresh one when it was missing. -/
theorem find_insert_self (hash : UInt32) (key : Key) (fresh : Value)
    (trie : HashTrie Key Value) :
    find hash key (insert hash key fresh trie) = some ((find hash key trie).getD fresh) := by
  induction trie generalizing hash with
  | leaf => simp [insert, find]
  | node stored value child ih =>
      by_cases same : stored = key
      · simp [insert, find, same]
      · simp [insert, find, same, ih]

/-- An insertion leaves the walk of every other key alone. -/
theorem find_insert_of_ne (hash hash' : UInt32) {key other : Key} (different : other ≠ key)
    (fresh : Value) (trie : HashTrie Key Value) :
    find hash' other (insert hash key fresh trie) = find hash' other trie := by
  induction trie generalizing hash hash' with
  | leaf => simp [insert, find, different.symm]
  | node stored value child ih =>
      by_cases same : stored = key
      · simp [insert, same]
      · by_cases found : stored = other
        · simp [insert, find, found, different]
        · simp only [insert, find, same, found, if_false]
          by_cases shared : branch hash' = branch hash
          · rw [if_pos shared, ih]
          · rw [if_neg shared]

/-- A change acts on the binding of its key. -/
theorem find_modify_self (hash : UInt32) (key : Key) (change : Value → Value)
    (trie : HashTrie Key Value) :
    find hash key (modify hash key change trie) = (find hash key trie).map change := by
  induction trie generalizing hash with
  | leaf => rfl
  | node stored value child ih =>
      by_cases same : stored = key
      · simp [modify, find, same]
      · simp [modify, find, same, ih]

/-- A change leaves the binding of every other key alone. -/
theorem find_modify_of_ne (hash hash' : UInt32) {key other : Key} (different : other ≠ key)
    (change : Value → Value) (trie : HashTrie Key Value) :
    find hash' other (modify hash key change trie) = find hash' other trie := by
  induction trie generalizing hash hash' with
  | leaf => rfl
  | node stored value child ih =>
      by_cases same : stored = key
      · simp [modify, find, same, different.symm]
      · by_cases found : stored = other
        · simp [modify, find, found, different]
        · simp only [modify, find, same, found, if_false]
          by_cases shared : branch hash' = branch hash
          · rw [if_pos shared, ih]
          · rw [if_neg shared]

/-- An insertion is a point update of the map when the key was missing. -/
theorem find_insert (hash : Key → UInt32) (key other : Key) (fresh : Value)
    (trie : HashTrie Key Value) (missing : find (hash key) key trie = none) :
    find (hash other) other (insert (hash key) key fresh trie) =
      if other = key then some fresh else find (hash other) other trie := by
  by_cases same : other = key
  · subst same
    simp [find_insert_self, missing]
  · rw [if_neg same, find_insert_of_ne _ _ same]

/-- A change is a point update of the map. -/
theorem find_modify (hash : Key → UInt32) (key other : Key) (change : Value → Value)
    (trie : HashTrie Key Value) :
    find (hash other) other (modify (hash key) key change trie) =
      if other = key then (find (hash key) key trie).map change
      else find (hash other) other trie := by
  by_cases same : other = key
  · subst same
    rw [if_pos rfl, find_modify_self]
  · rw [if_neg same, find_modify_of_ne _ _ same]

end HashTrie
