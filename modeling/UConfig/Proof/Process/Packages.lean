/-
This file proves which packages a finished process hands to the queries, and in which order.
-/

import UConfig.Program.Main
import UConfig.Proof.Process.Traversal

namespace UConfig

open GraphSearch

variable {proc : Processor} {roots : List PkgSpec}

/-- A package as the queries see it, with the flags that the graph justifies. -/
structure PackageUniverse.Lists (files : PackageUniverse proc roots) (realname : S8) (p : Pkg) :
    Prop where
  package : packageOf proc files.file realname = some p.unmarked
  isDirect : p.flags.isDirect = true ↔ files.graph.IsRoot realname
  isPublic : p.flags.isPublic = true ↔ files.graph.StrongReachable realname

/-- The names stand in the order of a process, and each one has its package. -/
structure PackageUniverse.Orders (files : PackageUniverse proc roots) (names : List S8)
    (package : S8 → Pkg) : Prop where
  lists : ∀ realname ∈ names, files.Lists realname (package realname)
  distinct : names.Nodup
  reachable : ∀ realname, realname ∈ names ↔ files.graph.Reachable realname
  sorted : files.graph.Acyclic → ∀ before realname after, names = before ++ realname :: after →
    ∀ other, Relation.TransGen files.graph.Edge realname other → other ∈ after

end UConfig
