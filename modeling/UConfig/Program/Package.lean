/-
This file gives the packages, their fields and the specifications that name them.
-/

import UConfig.Program.Env
import UConfig.Program.Failure

namespace UConfig

/-- The known fields stand in the order of the program's table. -/
inductive Field where
  | name
  | description
  | url
  | version
  | requires
  | requiresPrivate
  | conflicts
  | libs
  | libsPrivate
  | cflags
  | cflagsPrivate
  deriving DecidableEq, Repr

def Field.label : Field → S8
  | name => S "Name"
  | description => S "Description"
  | url => S "URL"
  | version => S "Version"
  | requires => S "Requires"
  | requiresPrivate => S "Requires.private"
  | conflicts => S "Conflicts"
  | libs => S "Libs"
  | libsPrivate => S "Libs.private"
  | cflags => S "Cflags"
  | cflagsPrivate => S "Cflags.private"

def fields : List Field :=
  [.name, .description, .url, .version, .requires, .requiresPrivate, .conflicts, .libs,
    .libsPrivate, .cflags, .cflagsPrivate]

def fieldByName (name : S8) : Option Field := fields.find? (·.label == name)

/-- No two fields have the same label. -/
theorem label_injective : ∀ first second : Field, first.label = second.label → first = second := by
  intro first second
  cases first <;> cases second <;> decide

/-- The table has every field. -/
theorem mem_fields (field : Field) : field ∈ fields := by
  cases field <;> decide

/-- The table is searched for exactly one label. -/
theorem fieldByName_eq_some {name : S8} {field : Field} :
    fieldByName name = some field ↔ field.label = name := by
  constructor
  · intro found
    simpa using List.find?_some found
  · rintro rfl
    cases found : fieldByName field.label with
    | none =>
        have absent := List.find?_eq_none.mp found field (mem_fields field)
        simp at absent
    | some other =>
        have same : other.label = field.label := by simpa using List.find?_some found
        rw [label_injective _ _ same]

structure PkgSpec where
  name : S8
  op : VersOp
  version : Option S8
  deriving DecidableEq

/-- The flags are the bits `pkg_DIRECT` and `pkg_PUBLIC`. -/
structure PkgFlags where
  isDirect : Bool
  isPublic : Bool
  deriving DecidableEq

namespace PkgFlags

def zero : PkgFlags := ⟨false, false⟩

def or (first second : PkgFlags) : PkgFlags :=
  ⟨first.isDirect || second.isDirect, first.isPublic || second.isPublic⟩

def clearDirect (flags : PkgFlags) : PkgFlags := { flags with isDirect := false }

end PkgFlags

/-- The package of the program without the links that keep it in a set or in a list. -/
structure Pkg where
  path : S8
  realname : S8
  contents : Option S8
  env : Env
  specsRequires : List PkgSpec
  specsRequiresPrivate : List PkgSpec
  flags : PkgFlags
  field : Field → Option S8

/-- The package of zero bytes. -/
def Pkg.zero : Pkg where
  path := []
  realname := []
  contents := none
  env := .empty
  specsRequires := []
  specsRequiresPrivate := []
  flags := .zero
  field := fun _ => none

def Pkg.setField (p : Pkg) (field : Field) (value : Option S8) : Pkg :=
  { p with field := Function.update p.field field value }

/-- The newest specification may still take an operator and a version. -/
structure SpecList where
  pkg : Option PkgSpec
  rest : List PkgSpec

def SpecList.head (specs : SpecList) : List PkgSpec := specs.pkg.toList ++ specs.rest

def newPkgSpec (name : S8) : PkgSpec := ⟨name, .err, none⟩

def checkNotOp (tok : S8) (p : Option S8) : Except Stop Unit :=
  if parseOp tok ≠ .err then .error (.fail (.unexpectedOperator tok p)) else .ok ()

/-- One token names a package, or it is an operator, or it is a version. -/
def parseSpecsToken (p : Option S8) (specs : SpecList) (tok : S8) : Except Stop SpecList :=
  match specs.pkg with
  | none => do
      checkNotOp tok p
      return ⟨some (newPkgSpec tok), specs.rest⟩
  | some pkg =>
      if pkg.op = .err then
        let op := parseOp tok
        if op = .err then
          .ok ⟨some (newPkgSpec tok), { pkg with op := op } :: specs.rest⟩
        else .ok ⟨some { pkg with op := op }, specs.rest⟩
      else .ok ⟨none, { pkg with version := some tok } :: specs.rest⟩

/-- Each token shortens the text. -/
theorem nextToken_tail_lt (s : S8) (found : (nextToken s).head ≠ []) :
    (nextToken s).tail.length < s.length := by
  have skipped := (List.dropWhile_sublist tokenSpace (l := s)).length_le
  have parts := congrArg List.length
    (List.takeWhile_append_dropWhile (p := (!tokenSpace ·)) (l := skipTokenSpace s))
  have positive := List.length_pos_of_ne_nil found
  simp only [nextToken, skipTokenSpace, List.length_append] at *
  omega

def parseSpecsArg (p : Option S8) (specs : SpecList) (tail : S8) : Except Stop SpecList :=
  if (nextToken tail).head = [] then .ok specs
  else do
    let specs ← parseSpecsToken p specs (nextToken tail).head
    parseSpecsArg p specs (nextToken tail).tail
termination_by tail.length
decreasing_by exact nextToken_tail_lt tail ‹_›

/-- The result lists the specifications from the last to the first. -/
def parseSpecs (args : List S8) (p : Option S8) : Except Stop (List PkgSpec) := do
  let specs ← args.foldlM (parseSpecsArg p) ⟨none, []⟩
  match specs.pkg with
  | some pkg =>
      if pkg.op ≠ .err ∧ pkg.version = none then
        .error (.fail (.expectedVersion pkg.op p))
      else .ok specs.head
  | none => .ok specs.head

end UConfig
