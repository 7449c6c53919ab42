/-
This file proves that the three tries of the program are finite maps, whatever the hashes are.
-/

import UConfig.Library.TrieMap
import UConfig.Program.WriteArgs
import UConfig.Proof.Process.PkgSet

namespace UConfig

open HashTrie

/-- The environments count no bindings, so the count is the one of their nodes. -/
def envStore : Store Env S8 (Option S8) where
  empty := Env.empty
  insert := Env.insert
  change e name update := HashTrie.modify (s8Hash name) name update e
  find := Env.find
  nodes e := e
  count := HashTrie.size

/-- A written binding is an insertion and a change. -/
theorem envStore_assign (e : Env) (name : S8) (value : Option S8) :
    envStore.change (envStore.insert e name) name (fun _ => value) = e.assign name value := rfl

/-- The environment is a lawful store. -/
theorem envStore_lawful : envStore.Lawful s8Hash fun _ => none where
  nodes_empty := rfl
  count_empty := rfl
  find_eq _ _ := rfl
  nodes_insert _ _ _ := rfl
  count_insert _ _ missing := size_insert missing _
  insert_present _ _ present := insert_of_find present _
  nodes_change _ _ _ := rfl
  count_change _ _ _ := size_modify _ _ _ _

def pkgStore : Store Pkgs S8 PkgNode where
  empty := Pkgs.empty
  insert := Pkgs.locate
  change := Pkgs.change
  find := Pkgs.find
  nodes t := t.pkgs
  count t := t.count

/-- The packages are a lawful store. -/
theorem pkgStore_lawful : pkgStore.Lawful s8Hash fun realname => ⟨freshPkg realname, none⟩ where
  nodes_empty := rfl
  count_empty := rfl
  find_eq _ _ := rfl
  nodes_insert t realname missing := by
    simp only [pkgStore] at missing ⊢
    simp only [Pkgs.locate, missing, freshPkg]
  count_insert _ _ missing := (Pkgs.locate_unknown missing).2
  insert_present t realname present := by
    obtain ⟨node, known⟩ := Option.isSome_iff_exists.mp present
    exact Pkgs.locate_known known
  nodes_change _ _ _ := rfl
  count_change _ _ _ := rfl

/-- The position of a new argument is the null position. -/
def positionStore : Store (HashTrie S8 Int) S8 Int where
  empty := .leaf
  insert positions arg := HashTrie.insert (s8Hash arg) arg 0 positions
  change positions arg update := HashTrie.modify (s8Hash arg) arg update positions
  find := findArgPos
  nodes positions := positions
  count := HashTrie.size

/-- An excluded argument is an insertion and a change. -/
theorem positionStore_excludeArg (args : Args) (arg : S8) :
    positionStore.change (positionStore.insert args.positions arg) arg (fun _ => -1) =
      (args.excludeArg arg).positions := rfl

/-- The positions are a lawful store. -/
theorem positionStore_lawful : positionStore.Lawful s8Hash fun _ => 0 where
  nodes_empty := rfl
  count_empty := rfl
  find_eq _ _ := rfl
  nodes_insert _ _ _ := rfl
  count_insert _ _ missing := size_insert missing _
  insert_present _ _ present := insert_of_find present _
  nodes_change _ _ _ := rfl
  count_change _ _ _ := size_modify _ _ _ _

/-- The bindings, the packages and the argument positions are finite maps after any sequence of
insertions and changes, for hashes that collide in any way. -/
theorem tries_refine_maps :
    envStore.RefinesMap s8Hash (fun _ => none) ∧
    pkgStore.RefinesMap s8Hash (fun realname => ⟨freshPkg realname, none⟩) ∧
    positionStore.RefinesMap s8Hash (fun _ => 0) :=
  ⟨envStore_lawful.refinesMap, pkgStore_lawful.refinesMap, positionStore_lawful.refinesMap⟩

end UConfig
