/-
This file gives the set of packages and the loop that loads them with a stack of 256 states.
A pointer to a package is its real name, which is unique in the set.
-/

import UConfig.Program.FindPackage

namespace UConfig

/-- A package of the set with the link that chains it in the list. -/
structure PkgNode where
  pkg : Pkg
  list : Option S8

structure Pkgs where
  pkgs : HashTrie S8 PkgNode
  head : Option S8
  count : Nat

namespace Pkgs

def empty : Pkgs := ⟨.leaf, none, 0⟩

def find (t : Pkgs) (realname : S8) : Option PkgNode :=
  HashTrie.find (s8Hash realname) realname t.pkgs

/-- The package that the pointer leads to is changed in place. -/
def change (t : Pkgs) (realname : S8) (update : PkgNode → PkgNode) : Pkgs :=
  { t with pkgs := HashTrie.modify (s8Hash realname) realname update t.pkgs }

/-- Locate a previously loaded package, or allocate a zero one for a new package. -/
def locate (t : Pkgs) (realname : S8) : Pkgs :=
  match t.find realname with
  | some _ => t
  | none =>
      { t with
        pkgs := HashTrie.insert (s8Hash realname) realname
          ⟨{ Pkg.zero with realname := realname }, none⟩ t.pkgs
        count := t.count + 1 }

/-- Prepending a package that is already linked is an assertion failure. -/
def prepend (t : Pkgs) (p : S8) : Except Stop Pkgs :=
  match t.find p with
  | none => .error .fault
  | some node =>
      if node.list.isSome then .error .fault
      else
        .ok { t.change p fun node => { node with list := t.head } with head := some p }

/-- The walk along the links is cut off when it is longer than the fuel. -/
def walk (t : Pkgs) : Nat → Option S8 → List S8
  | _, none => []
  | 0, some _ => []
  | fuel + 1, some p => p :: t.walk fuel ((t.find p).bind (·.list))

/-- The packages from the head on. -/
def list (t : Pkgs) : List S8 := t.walk (t.count + 1) t.head

def allPresent (t : Pkgs) : Bool := t.list.length == t.count

def setPkg (t : Pkgs) (realname : S8) (pkg : Pkg) : Pkgs :=
  t.change realname fun node => { node with pkg := pkg }

def addFlags (t : Pkgs) (realname : S8) (flags : PkgFlags) : Pkgs :=
  t.change realname fun node =>
    { node with pkg := { node.pkg with flags := node.pkg.flags.or flags } }

end Pkgs

structure ProcState where
  specs : List PkgSpec
  newpkg : Option S8
  depth : Nat
  flags : PkgFlags

def ProcState.zero : ProcState := ⟨[], none, 0, .zero⟩

/-- A new processor has the largest 32-bit limit. -/
def defaultMaxDepth : Nat := 2147483647

structure Processor where
  mapFile : MapFile
  search : List S8
  global : Env
  maxDepth : Nat
  definePrefix : Bool
  recursive : Bool
  ignoreVersions : Bool

/-- Find and load a package, and merge it into its place in the set. -/
def loadPkg (proc : Processor) (p : Pkg) (name : S8) : Except Stop Pkg := do
  let newpkg ← findPackage proc.mapFile proc.search name
  let newpkg := if proc.definePrefix then setPrefix newpkg else newpkg
  expandMerge proc.global p newpkg

structure Machine where
  stack : Vector ProcState 256
  top : Int
  pkgs : Pkgs

/-- A read outside of the stack is a fault. -/
def Machine.slot (m : Machine) (index : Int) : Except Stop ProcState :=
  match SlotStack.read m.stack index with
  | some s => .ok s
  | none => .error .fault

/-- A write outside of the stack is a fault. -/
def Machine.setSlot (m : Machine) (index : Int) (s : ProcState) : Except Stop Machine :=
  match SlotStack.write m.stack index s with
  | some stack => .ok { m with stack := stack }
  | none => .error .fault

/-- A push sets every member of the next slot but the new package. -/
def Machine.push (m : Machine) (specs : List PkgSpec) (depth : Nat) (flags : PkgFlags) :
    Except Stop Machine := do
  let s ← m.slot (m.top + 1)
  let m ← m.setSlot (m.top + 1) { s with specs := specs, depth := depth, flags := flags }
  return { m with top := m.top + 1 }

/-- The package that was loaded for the top state joins the list. -/
def prependNew (pkgs : Pkgs) : Option S8 → Except Stop Pkgs
  | some p => pkgs.prepend p
  | none => .ok pkgs

/-- A package that was loaded as private has its public requires traversed again. -/
def visitLoaded (proc : Processor) (m : Machine) (p : Pkg) (depth : Nat) (flags : PkgFlags) :
    Except Stop Machine :=
  if flags.isPublic && !p.flags.isPublic then
    let m := { m with pkgs := m.pkgs.addFlags p.realname ⟨false, true⟩ }
    if proc.recursive && depth < proc.maxDepth then
      if m.top ≥ 256 - 1 then .error (.fail (.maxRecursionOn ((p.field .name).getD [])))
      else m.push p.specsRequires depth flags.clearDirect
    else .ok m
  else .ok m

/-- The version is checked when the specification has an operator. -/
def checkVersion (proc : Processor) (p : Pkg) (spec : PkgSpec) : Except Stop Unit :=
  if spec.op ≠ .err ∧ !proc.ignoreVersions then
    let version := (p.field .version).getD []
    let want := spec.version.getD []
    match validCompare spec.op (compareVersions version want) with
    | none => .error .fault
    | some true => .ok ()
    | some false => .error (.fail (.versionMismatch p.realname spec.op want version))
  else .ok ()

/-- The package has not been loaded yet, so find and load it. -/
def visitNew (proc : Processor) (m : Machine) (s : ProcState) (spec : PkgSpec) (p : Pkg)
    (depth : Nat) (flags : PkgFlags) : Except Stop Machine := do
  let m ← m.setSlot m.top { s with newpkg := some p.realname }
  let p ← loadPkg proc p spec.name
  let m := { m with pkgs := m.pkgs.setPkg p.realname p }
  checkVersion proc p spec
  if proc.recursive && depth < proc.maxDepth then
    if m.top ≥ 256 - 2 then .error (.fail (.maxRecursionOn ((p.field .name).getD [])))
    else
      let m ← m.push p.specsRequires depth flags.clearDirect
      m.push p.specsRequiresPrivate depth .zero
  else .ok m

/-- The visit of one specification ends with the flags of its state on the package. -/
def visit (proc : Processor) (m : Machine) (s : ProcState) (spec : PkgSpec) :
    Except Stop Machine := do
  let realname := pathToRealname spec.name
  let pkgs := m.pkgs.locate realname
  match pkgs.find realname with
  | none => .error .fault
  | some node =>
      let m := { m with pkgs := pkgs }
      let depth := s.depth + 1
      let m ←
        if node.pkg.contents.isSome then visitLoaded proc m node.pkg depth s.flags
        else visitNew proc m s spec node.pkg depth s.flags
      return { m with pkgs := m.pkgs.addFlags realname s.flags }

/-- One turn of the loop works on the top state. -/
def processTurn (proc : Processor) (m : Machine) : Except Stop (Machine ⊕ Pkgs) :=
  if m.top < 0 then
    if m.pkgs.allPresent then .ok (.inr m.pkgs) else .error .fault
  else do
    let s ← m.slot m.top
    let pkgs ← prependNew m.pkgs s.newpkg
    let s := { s with newpkg := none }
    let m := { m with pkgs := pkgs }
    match s.specs with
    | [] => do
        let m ← m.setSlot m.top s
        return .inl { m with top := m.top - 1 }
    | spec :: next => do
        let s := { s with specs := next }
        let m ← m.setSlot m.top s
        let m ← visit proc m s spec
        return .inl m

/-- The loop goes on until the stack is empty or the program stops. -/
def processBody (proc : Processor) (m : Machine) : Machine ⊕ Except Stop Pkgs :=
  match processTurn proc m with
  | .error stop => .inr (.error stop)
  | .ok (.inl m) => .inl m
  | .ok (.inr pkgs) => .inr (.ok pkgs)

/-- The stack of a new processor is zero, and the first state has the roots. -/
def processStart (specs : List PkgSpec) : Machine where
  stack := (Vector.replicate 256 .zero).set 0 ⟨specs, none, 0, ⟨true, true⟩⟩
  top := 0
  pkgs := .empty

/-- The fuel bounds the turns of the loop. The arena is taken to suffice for all packages, so no turn
stops for want of memory. -/
def process (fuel : Nat) (proc : Processor) (specs : List PkgSpec) : Option (Except Stop Pkgs) :=
  Loop.run (processBody proc) fuel (processStart specs)

end UConfig
