/-
This file gives the variable environments, which are hash tries from names to values.
-/

import UConfig.Program.S8
import UConfig.Library.HashTrie

namespace UConfig

/-- A binding without a value holds a null string. -/
abbrev Env := HashTrie S8 (Option S8)

namespace Env

def empty : Env := .leaf

/-- The binding of the name, when there is one. -/
def find (e : Env) (name : S8) : Option (Option S8) := HashTrie.find (s8Hash name) name e

/-- The binding is created with a null string when it is missing. -/
def insert (e : Env) (name : S8) : Env := HashTrie.insert (s8Hash name) name none e

/-- The value is stored through the pointer that the insertion returns. -/
def assign (e : Env) (name : S8) (value : Option S8) : Env :=
  HashTrie.modify (s8Hash name) name (fun _ => value) (e.insert name)

@[simp] theorem find_empty (name : S8) : empty.find name = none := rfl

/-- An insertion gives its name an empty value when it has none. -/
@[simp] theorem find_insert (e : Env) (name other : S8) :
    (e.insert name).find other =
      if other = name then some ((e.find name).getD none) else e.find other := by
  by_cases same : other = name
  · subst same
    rw [if_pos rfl]
    exact HashTrie.find_insert_self _ _ _ e
  · rw [if_neg same]
    exact HashTrie.find_insert_of_ne _ _ same _ e

/-- An assignment changes its own name and no other one. -/
@[simp] theorem find_assign (e : Env) (name other : S8) (value : Option S8) :
    (e.assign name value).find other = if other = name then some value else e.find other := by
  have changed := HashTrie.find_modify s8Hash name other (fun _ => value) (e.insert name)
  change (e.assign name value).find other = _ at changed
  rw [changed]
  by_cases same : other = name
  · have present := find_insert e name name
    rw [if_pos rfl] at present
    rw [if_pos same, if_pos same]
    change ((e.insert name).find name).map _ = _
    rw [present]
    rfl
  · rw [if_neg same, if_neg same]
    exact (find_insert e name other).trans (if_neg same)

end Env

/-- The global environment comes first, and a null string means that nothing was found. -/
def lookup (global env : Env) (name : S8) : Option S8 :=
  match global.find name with
  | some value => value
  | none => (env.find name).getD none

end UConfig
