/-
This file proves what the operations on the set of packages do to its map and to its list.
-/

import UConfig.Program.Process
import UConfig.Library.GraphSearch

namespace UConfig

open GraphSearch

/-- The flags of the program are the marks of the search. -/
def PkgFlags.marks (flags : PkgFlags) : Marks := ⟨flags.isDirect, flags.isPublic⟩

/-- Fresh flags have no marks. -/
@[simp] theorem PkgFlags.marks_zero : PkgFlags.zero.marks = ⟨false, false⟩ := rfl

/-- A requirement is no root. -/
@[simp] theorem PkgFlags.marks_clearDirect (flags : PkgFlags) :
    flags.clearDirect.marks = ⟨false, flags.marks.strong⟩ := rfl

/-- A package without what the traversal adds to it. -/
def Pkg.unmarked (pkg : Pkg) : Pkg := { pkg with flags := .zero }

/-- The package that a located name has before it is loaded. -/
def freshPkg (realname : S8) : Pkg := { Pkg.zero with realname := realname }

namespace Pkgs

/-- The set as a map from names to packages and their marks. -/
def entry (t : Pkgs) (realname : S8) : Option (Pkg × Marks) :=
  (t.find realname).map fun node => (node.pkg.unmarked, node.pkg.flags.marks)

@[simp] theorem find_empty (realname : S8) : empty.find realname = none := rfl

/-- A change concerns its own package only. -/
theorem find_change (t : Pkgs) (realname other : S8) (update : PkgNode → PkgNode) :
    (t.change realname update).find other =
      if other = realname then (t.find realname).map update else t.find other :=
  HashTrie.find_modify s8Hash realname other update t.pkgs

/-- The package of a known name is in the set. -/
theorem find_of_entry {t : Pkgs} {realname : S8} {pkg : Pkg} {marks : Marks}
    (known : t.entry realname = some (pkg, marks)) :
    ∃ node, t.find realname = some node ∧ node.pkg.unmarked = pkg ∧
      node.pkg.flags.marks = marks := by
  obtain ⟨node, found, same⟩ := Option.map_eq_some_iff.mp known
  exact ⟨node, found, congrArg Prod.fst same, congrArg Prod.snd same⟩

/-- A package that is known is not located again. -/
theorem locate_known {t : Pkgs} {realname : S8} {node : PkgNode}
    (known : t.find realname = some node) : t.locate realname = t := by
  simp only [locate, known]

/-- A package that is located is a fresh one. -/
theorem find_locate {t : Pkgs} {realname : S8} (unknown : t.find realname = none) (other : S8) :
    (t.locate realname).find other =
      if other = realname then some ⟨freshPkg realname, none⟩ else t.find other := by
  simp only [locate, unknown]
  exact HashTrie.find_insert s8Hash realname other _ t.pkgs unknown

/-- A new package counts but is not listed yet. -/
theorem locate_unknown {t : Pkgs} {realname : S8} (unknown : t.find realname = none) :
    (t.locate realname).head = t.head ∧ (t.locate realname).count = t.count + 1 := by
  constructor <;> simp only [locate, unknown]

/-- Added flags are joined to the marks of their package. -/
theorem entry_addFlags {t : Pkgs} {realname : S8} {pkg : Pkg} {marks : Marks}
    (known : t.entry realname = some (pkg, marks)) (flags : PkgFlags) :
    (t.addFlags realname flags).entry =
      Function.update t.entry realname (some (pkg, marks.join flags.marks)) := by
  funext other
  by_cases same : other = realname
  · subst same
    rw [Function.update_self, entry, addFlags, find_change, if_pos rfl]
    cases found : t.find other with
    | none =>
        rw [entry, found] at known
        cases known
    | some node =>
        rw [entry, found] at known
        cases known
        rfl
  · rw [Function.update_of_ne same, entry, addFlags, find_change, if_neg same]
    rfl

/-- A package that is located and then loaded enters the map without marks. -/
theorem entry_loaded {t : Pkgs} {realname : S8} (unknown : t.find realname = none) {pkg : Pkg}
    (flags : pkg.flags = .zero) :
    ((t.locate realname).setPkg realname pkg).entry =
      Function.update t.entry realname (some (pkg, ⟨false, false⟩)) := by
  funext other
  rw [entry, setPkg, find_change, find_locate unknown, if_pos rfl, find_locate unknown]
  by_cases same : other = realname
  · rw [if_pos same, same, Function.update_self]
    have unmarked : pkg.unmarked = pkg := by rw [Pkg.unmarked, ← flags]
    simp only [Option.map_some, unmarked, flags, PkgFlags.marks_zero]
  · rw [if_neg same, if_neg same, Function.update_of_ne same, entry]

/-- The links from the start lead through these packages. -/
inductive Linked (t : Pkgs) : Option S8 → List S8 → Prop
  | nil : Linked t none []
  | cons {realname : S8} {node : PkgNode} {rest : List S8}
      (found : t.find realname = some node) (links : Linked t node.list rest) :
      Linked t (some realname) (realname :: rest)

/-- A chain of links only depends on the links of its packages. -/
theorem Linked.congr {t t' : Pkgs} {start : Option S8} {items : List S8}
    (linked : t.Linked start items)
    (same : ∀ realname ∈ items, ∀ node, t.find realname = some node →
      ∃ node', t'.find realname = some node' ∧ node'.list = node.list) :
    t'.Linked start items := by
  induction linked with
  | nil => exact .nil
  | @cons realname node rest found links ih =>
      obtain ⟨node', found', list⟩ := same realname List.mem_cons_self node found
      apply Linked.cons found'
      rw [list]
      exact ih fun other member => same other (List.mem_cons_of_mem _ member)

/-- The walk collects a chain of links that its fuel suffices for. -/
theorem Linked.walk_eq {t : Pkgs} {start : Option S8} {items : List S8}
    (linked : t.Linked start items) {fuel : Nat} (enough : items.length ≤ fuel) :
    t.walk fuel start = items := by
  induction linked generalizing fuel with
  | nil => cases fuel <;> rfl
  | @cons realname node rest found links ih =>
      obtain ⟨fuel, rfl⟩ : ∃ less, fuel = less + 1 :=
        ⟨fuel - 1, by simp only [List.length_cons] at enough; omega⟩
      rw [walk, found, Option.bind_some, ih (by simpa using enough)]

/-- The list of the set is this order, and no other package has a link. -/
structure Listed (t : Pkgs) (order : List S8) : Prop where
  linked : t.Linked t.head order
  free : ∀ realname ∉ order, ∀ node, t.find realname = some node → node.list = none

/-- The empty set lists nothing. -/
theorem listed_empty : Listed .empty [] :=
  ⟨.nil, fun _ _ _ found => (by cases found)⟩

/-- A change that keeps the link of its package keeps the list. -/
theorem Listed.change {t : Pkgs} {order : List S8} (listed : t.Listed order) (realname : S8)
    {update : PkgNode → PkgNode} (keeps : ∀ node, (update node).list = node.list) :
    (t.change realname update).Listed order where
  linked := by
    refine listed.linked.congr fun other _ node found => ?_
    rw [find_change]
    by_cases same : other = realname
    · subst same
      exact ⟨update node, by rw [if_pos rfl, found]; rfl, keeps node⟩
    · exact ⟨node, by rw [if_neg same, found], rfl⟩
  free other outside node found := by
    rw [find_change] at found
    by_cases same : other = realname
    · rw [if_pos same] at found
      subst same
      obtain ⟨before, known, rfl⟩ := Option.map_eq_some_iff.mp found
      exact (keeps before).trans (listed.free other outside before known)
    · rw [if_neg same] at found
      exact listed.free other outside node found

/-- Flags do not change the list. -/
theorem Listed.addFlags {t : Pkgs} {order : List S8} (listed : t.Listed order) (realname : S8)
    (flags : PkgFlags) : (t.addFlags realname flags).Listed order :=
  listed.change realname fun _ => rfl

/-- A package that has been loaded does not change the list. -/
theorem Listed.setPkg {t : Pkgs} {order : List S8} (listed : t.Listed order) (realname : S8)
    (pkg : Pkg) : (t.setPkg realname pkg).Listed order :=
  listed.change realname fun _ => rfl

/-- A newly located package is not in the list. -/
theorem Listed.locate {t : Pkgs} {order : List S8} (listed : t.Listed order) {realname : S8}
    (unknown : t.find realname = none) : (t.locate realname).Listed order where
  linked := by
    rw [(locate_unknown unknown).1]
    refine listed.linked.congr fun other _ node found => ⟨node, ?_, rfl⟩
    have different : other ≠ realname := by
      intro same
      rw [same, unknown] at found
      cases found
    rw [find_locate unknown, if_neg different, found]
  free other outside node found := by
    rw [find_locate unknown] at found
    by_cases same : other = realname
    · rw [if_pos same] at found
      cases found
      rfl
    · rw [if_neg same] at found
      exact listed.free other outside node found

/-- A package that is not in the list can be prepended to it. -/
theorem Listed.prepend {t : Pkgs} {order : List S8} (listed : t.Listed order) {realname : S8}
    {node : PkgNode} (known : t.find realname = some node) (outside : realname ∉ order) :
    ∃ t', t.prepend realname = .ok t' ∧ t'.Listed (realname :: order) ∧ t'.entry = t.entry ∧
      t'.count = t.count ∧ (∀ other, (t'.find other).map (·.pkg) = (t.find other).map (·.pkg)) := by
  have unlinked := listed.free realname outside node known
  have found : ∀ other, ({ t.change realname fun node => { node with list := t.head } with
      head := some realname } : Pkgs).find other =
        if other = realname then some ⟨node.pkg, t.head⟩ else t.find other := by
    intro other
    refine (find_change t realname other _).trans ?_
    rw [known]
    rfl
  refine ⟨{ t.change realname fun node => { node with list := t.head } with
    head := some realname }, ?_, ⟨?_, ?_⟩, ?_, rfl, ?_⟩
  · simp only [Pkgs.prepend, known, unlinked]
    rfl
  · apply Linked.cons ((found realname).trans (if_pos rfl))
    refine listed.linked.congr fun other member before isBefore => ⟨before, ?_, rfl⟩
    have different : other ≠ realname := fun same => outside (same ▸ member)
    rw [found, if_neg different, isBefore]
  · intro other absent after isAfter
    rw [List.mem_cons, not_or] at absent
    rw [found, if_neg absent.1] at isAfter
    exact listed.free other absent.2 after isAfter
  · funext other
    rw [entry, entry, found]
    by_cases same : other = realname
    · rw [if_pos same, same, known]
      rfl
    · rw [if_neg same]
  · intro other
    rw [found]
    by_cases same : other = realname
    · rw [if_pos same, same, known]
      rfl
    · rw [if_neg same]

/-- The walk from the head is the order when the count is large enough. -/
theorem Listed.list_eq {t : Pkgs} {order : List S8} (listed : t.Listed order)
    (enough : order.length ≤ t.count + 1) : t.list = order :=
  listed.linked.walk_eq enough

end Pkgs

end UConfig
