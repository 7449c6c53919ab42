/-
This file proves that a trie stays a finite map under any sequence of insertions and changes.
-/

import UConfig.Library.HashTrie
import Mathlib.Data.Finset.Card
import Mathlib.Data.Finset.Insert

namespace HashTrie

variable {Key Value : Type*} [DecidableEq Key]

/-- The path to the node of a key is the address of its binding. -/
def path (hash : UInt32) (key : Key) : HashTrie Key Value → Option (List (Fin 4))
  | leaf => none
  | node stored _ child =>
      if stored = key then some []
      else (path (hash <<< 2) key (child (branch hash))).map (branch hash :: ·)

/-- What is stored at an address. -/
def nodeAt : List (Fin 4) → HashTrie Key Value → Option (Key × Value)
  | _, leaf => none
  | [], node stored value _ => some (stored, value)
  | slot :: rest, node _ _ child => nodeAt rest (child slot)

/-- The node at the address of a key holds the key and its value. -/
theorem nodeAt_path {hash : UInt32} {key : Key} {trie : HashTrie Key Value} {address : List (Fin 4)}
    (found : path hash key trie = some address) :
    ∃ value, find hash key trie = some value ∧ nodeAt address trie = some (key, value) := by
  induction trie generalizing hash address with
  | leaf => cases found
  | node stored value child ih =>
      rw [path] at found
      rw [find]
      split at found
      case isTrue same =>
        cases found
        rw [if_pos same, ← same]
        exact ⟨value, rfl, rfl⟩
      case isFalse different =>
        obtain ⟨below, isBelow, rfl⟩ := Option.map_eq_some_iff.mp found
        rw [if_neg different]
        exact ih _ isBelow

/-- There is a path to exactly the keys that are found. -/
theorem path_isSome (hash : UInt32) (key : Key) (trie : HashTrie Key Value) :
    (path hash key trie).isSome = (find hash key trie).isSome := by
  induction trie generalizing hash with
  | leaf => rfl
  | node stored value child ih =>
      rw [path, find]
      split
      · rfl
      · rw [Option.isSome_map, ih]

/-- An insertion keeps the address of every key. -/
theorem path_insert {hash : UInt32} {key : Key} {trie : HashTrie Key Value}
    {address : List (Fin 4)} (found : path hash key trie = some address) (hash' : UInt32)
    (other : Key) (fresh : Value) : path hash key (insert hash' other fresh trie) = some address := by
  induction trie generalizing hash hash' address with
  | leaf => cases found
  | node stored value child ih =>
      rw [path] at found
      rw [insert]
      by_cases isOther : stored = other
      · rw [if_pos isOther, path]
        exact found
      · rw [if_neg isOther, path]
        by_cases same : stored = key
        · rw [if_pos same] at found ⊢
          exact found
        · rw [if_neg same] at found ⊢
          obtain ⟨below, isBelow, rfl⟩ := Option.map_eq_some_iff.mp found
          by_cases shared : branch hash = branch hash'
          · rw [if_pos shared, ih _ isBelow]
            rfl
          · rw [if_neg shared, isBelow]
            rfl

/-- A change moves no node. -/
theorem path_modify (hash hash' : UInt32) (key other : Key) (change : Value → Value)
    (trie : HashTrie Key Value) : path hash key (modify hash' other change trie) = path hash key trie := by
  induction trie generalizing hash hash' with
  | leaf => rfl
  | node stored value child ih =>
      rw [modify]
      by_cases isOther : stored = other
      · rw [if_pos isOther, path, path]
      · rw [if_neg isOther, path, path]
        by_cases shared : branch hash = branch hash'
        · rw [if_pos shared, ih]
        · rw [if_neg shared]

/-- An insertion of a present key changes nothing. -/
theorem insert_of_find {hash : UInt32} {key : Key} {trie : HashTrie Key Value}
    (found : (find hash key trie).isSome) (fresh : Value) : insert hash key fresh trie = trie := by
  induction trie generalizing hash with
  | leaf => cases found
  | node stored value child ih =>
      rw [find] at found
      rw [insert]
      split
      case isTrue => rfl
      case isFalse different =>
        rw [if_neg different] at found
        congr 1
        funext slot
        split
        case isTrue isBranch => rw [isBranch, ih _ found]
        case isFalse => rfl

/-- An insertion of a missing key adds one node. -/
theorem size_insert {hash : UInt32} {key : Key} {trie : HashTrie Key Value}
    (missing : find hash key trie = none) (fresh : Value) :
    (insert hash key fresh trie).size = trie.size + 1 := by
  induction trie generalizing hash with
  | leaf => rfl
  | node stored value child ih =>
      rw [find] at missing
      split at missing
      case isTrue => cases missing
      case isFalse different =>
        have below := ih _ missing
        rw [insert, if_neg different, size, size]
        generalize branch hash = slot at below ⊢
        obtain rfl | rfl | rfl | rfl : slot = 0 ∨ slot = 1 ∨ slot = 2 ∨ slot = 3 := by omega
        all_goals
          simp at below ⊢
          omega

/-- A change of a value adds no node. -/
theorem size_modify (hash : UInt32) (key : Key) (change : Value → Value)
    (trie : HashTrie Key Value) : (modify hash key change trie).size = trie.size := by
  induction trie generalizing hash with
  | leaf => rfl
  | node stored value child ih =>
      rw [modify]
      split
      · rfl
      · have same : ∀ slot, (if slot = branch hash then modify (hash <<< 2) key change (child slot)
            else child slot).size = (child slot).size := by
          intro slot
          split
          · exact ih slot _
          · rfl
        simp only [size, same]

/-- A key is inserted, or the binding that an insertion has returned is written. -/
inductive Op (Key Value : Type*) where
  | insert (key : Key)
  | change (key : Key) (update : Value → Value)

def Op.key : Op Key Value → Key
  | insert key => key
  | change key _ => key

/-- The keys that some operations have inserted. -/
def inserted : List (Op Key Value) → Finset Key
  | [] => ∅
  | .insert key :: ops => Insert.insert key (inserted ops)
  | .change _ _ :: ops => inserted ops

/-- What an operation does to a map, where a new key gets a fresh value. -/
def Op.applyMap (fresh : Key → Value) (map : Key → Option Value) : Op Key Value → Key → Option Value
  | insert key => Function.update map key (some ((map key).getD (fresh key)))
  | change key update => Function.update map key ((map key).map update)

/-- The finite map after some operations, of which the last one stands first. -/
def mapAfter (fresh : Key → Value) : List (Op Key Value) → Key → Option Value
  | [] => fun _ => none
  | op :: ops => op.applyMap fresh (mapAfter fresh ops)

/-- A key is bound when it has been inserted, and a change binds nothing. -/
theorem isSome_mapAfter (fresh : Key → Value) (ops : List (Op Key Value)) (key : Key) :
    (mapAfter fresh ops key).isSome ↔ key ∈ inserted ops := by
  induction ops with
  | nil => simp [mapAfter, inserted]
  | cons op ops ih =>
      cases op with
      | insert other =>
          by_cases same : key = other <;> simp [mapAfter, Op.applyMap, inserted, same, ih]
      | change other update =>
          by_cases same : key = other
          · subst same
            simp [mapAfter, Op.applyMap, inserted, ih]
          · simp [mapAfter, Op.applyMap, inserted, same, ih]

/-- A state that holds a trie, and what a program does to it. -/
structure Store (State Key Value : Type*) where
  empty : State
  insert : State → Key → State
  change : State → Key → (Value → Value) → State
  find : State → Key → Option Value
  nodes : State → HashTrie Key Value
  count : State → Nat

namespace Store

variable {State : Type*}

def apply (store : Store State Key Value) (s : State) : Op Key Value → State
  | .insert key => store.insert s key
  | .change key update => store.change s key update

/-- The state after some operations, of which the last one stands first. -/
def after (store : Store State Key Value) : List (Op Key Value) → State
  | [] => store.empty
  | op :: ops => store.apply (store.after ops) op

/-- The operations of the store are the ones of its trie. -/
structure Lawful (store : Store State Key Value) (hash : Key → UInt32) (fresh : Key → Value) :
    Prop where
  nodes_empty : store.nodes store.empty = leaf
  count_empty : store.count store.empty = 0
  find_eq : ∀ s key, store.find s key = HashTrie.find (hash key) key (store.nodes s)
  nodes_insert : ∀ s key, store.find s key = none →
    store.nodes (store.insert s key) = HashTrie.insert (hash key) key (fresh key) (store.nodes s)
  count_insert : ∀ s key, store.find s key = none →
    store.count (store.insert s key) = store.count s + 1
  insert_present : ∀ s key, (store.find s key).isSome → store.insert s key = s
  nodes_change : ∀ s key update,
    store.nodes (store.change s key update) = modify (hash key) key update (store.nodes s)
  count_change : ∀ s key update, store.count (store.change s key update) = store.count s

/-- The address of the binding of a key. -/
def address (store : Store State Key Value) (hash : Key → UInt32) (s : State) (key : Key) :
    Option (List (Fin 4)) := path (hash key) key (store.nodes s)

/-- The store is a finite map with one binding for each key, after any operations. -/
structure RefinesMap (store : Store State Key Value) (hash : Key → UInt32) (fresh : Key → Value) :
    Prop where
  find_after : ∀ ops, store.find (store.after ops) = mapAfter fresh ops
  bound : ∀ ops key, (store.find (store.after ops) key).isSome ↔ key ∈ inserted ops
  existing : ∀ ops, ∀ key ∈ inserted ops, store.insert (store.after ops) key = store.after ops
  others : ∀ ops op key, key ≠ Op.key op →
    store.find (store.after (op :: ops)) key = store.find (store.after ops) key
  addressed : ∀ ops, ∀ key ∈ inserted ops, ∃ place value,
    store.address hash (store.after ops) key = some place ∧
    store.find (store.after ops) key = some value ∧
    nodeAt place (store.nodes (store.after ops)) = some (key, value)
  separate : ∀ ops key key' place, store.address hash (store.after ops) key = some place →
    store.address hash (store.after ops) key' = some place → key = key'
  stable : ∀ ops op key place, store.address hash (store.after ops) key = some place →
    store.address hash (store.after (op :: ops)) key = some place
  count_after : ∀ ops, store.count (store.after ops) = (inserted ops).card
  size_after : ∀ ops, (store.nodes (store.after ops)).size = (inserted ops).card

namespace Lawful

variable {store : Store State Key Value} {hash : Key → UInt32} {fresh : Key → Value}

/-- One operation changes the map in one place. -/
theorem find_apply (lawful : store.Lawful hash fresh) (s : State) (op : Op Key Value) :
    store.find (store.apply s op) = op.applyMap fresh (store.find s) := by
  funext other
  cases op with
  | insert key =>
      rw [apply, Op.applyMap, Function.update_apply]
      cases known : store.find s key with
      | none =>
          rw [lawful.find_eq, lawful.nodes_insert s key known,
            find_insert hash key other _ _ (by rw [← lawful.find_eq, known]), ← lawful.find_eq]
          rfl
      | some value =>
          rw [lawful.insert_present s key (by rw [known]; rfl)]
          by_cases same : other = key
          · rw [if_pos same, same, known]
            rfl
          · rw [if_neg same]
  | change key update =>
      rw [apply, Op.applyMap, Function.update_apply, lawful.find_eq, lawful.nodes_change,
        find_modify, ← lawful.find_eq, ← lawful.find_eq]

/-- The store is the map of its operations. -/
theorem find_after (lawful : store.Lawful hash fresh) (ops : List (Op Key Value)) :
    store.find (store.after ops) = mapAfter fresh ops := by
  induction ops with
  | nil =>
      funext key
      rw [after, lawful.find_eq, lawful.nodes_empty]
      rfl
  | cons op ops ih => rw [after, lawful.find_apply, ih, mapAfter]

/-- A key is found when some operation has inserted it. -/
theorem isSome_after (lawful : store.Lawful hash fresh) (ops : List (Op Key Value)) (key : Key) :
    (store.find (store.after ops) key).isSome ↔ key ∈ inserted ops := by
  rw [lawful.find_after, isSome_mapAfter]

/-- An operation moves no binding. -/
theorem address_apply (lawful : store.Lawful hash fresh) {s : State} {key : Key}
    {place : List (Fin 4)} (found : store.address hash s key = some place) (op : Op Key Value) :
    store.address hash (store.apply s op) key = some place := by
  cases op with
  | insert other =>
      rw [apply]
      cases known : store.find s other with
      | none =>
          rw [address, lawful.nodes_insert s other known]
          exact path_insert found _ _ _
      | some value =>
          rw [lawful.insert_present s other (by rw [known]; rfl)]
          exact found
  | change other update =>
      rw [apply, address, lawful.nodes_change, path_modify]
      exact found

/-- Only an insertion of a missing key adds a node. -/
theorem size_after (lawful : store.Lawful hash fresh) (ops : List (Op Key Value)) :
    (store.nodes (store.after ops)).size = (inserted ops).card ∧
      store.count (store.after ops) = (inserted ops).card := by
  induction ops with
  | nil => exact ⟨by rw [after, lawful.nodes_empty]; rfl, lawful.count_empty⟩
  | cons op ops ih =>
      cases op with
      | change key update =>
          rw [after, apply, lawful.nodes_change, size_modify, lawful.count_change]
          exact ih
      | insert key =>
          rw [after, apply]
          by_cases known : key ∈ inserted ops
          · rw [lawful.insert_present _ _ ((lawful.isSome_after ops key).mpr known), inserted,
              Finset.insert_eq_of_mem known]
            exact ih
          · have missing : store.find (store.after ops) key = none := by
              rw [← Option.not_isSome_iff_eq_none, lawful.isSome_after]
              exact known
            rw [lawful.nodes_insert _ _ missing, lawful.count_insert _ _ missing,
              size_insert (by rw [← lawful.find_eq, missing]), inserted,
              Finset.card_insert_of_notMem known, ih.1, ih.2]
            exact ⟨rfl, rfl⟩

/-- A lawful store refines a finite map. -/
theorem refinesMap (lawful : store.Lawful hash fresh) : store.RefinesMap hash fresh where
  find_after := lawful.find_after
  bound := lawful.isSome_after
  existing ops key known := lawful.insert_present _ _ ((lawful.isSome_after ops key).mpr known)
  others ops op key different := by
    rw [after, lawful.find_apply]
    cases op <;> exact Function.update_of_ne different _ _
  addressed ops key known := by
    rw [← lawful.isSome_after ops, lawful.find_eq, ← path_isSome] at known
    obtain ⟨place, found⟩ := Option.isSome_iff_exists.mp known
    obtain ⟨value, isValue, atPlace⟩ := nodeAt_path found
    exact ⟨place, value, found, (lawful.find_eq _ _).trans isValue, atPlace⟩
  separate ops key key' place found found' := by
    obtain ⟨value, _, atPlace⟩ := nodeAt_path found
    obtain ⟨value', _, atPlace'⟩ := nodeAt_path found'
    rw [atPlace] at atPlace'
    exact congrArg Prod.fst (Option.some.inj atPlace')
  stable ops op key place found := lawful.address_apply found op
  count_after ops := (lawful.size_after ops).2
  size_after ops := (lawful.size_after ops).1

end Lawful

end Store

end HashTrie
