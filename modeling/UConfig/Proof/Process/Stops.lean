/-
This file proves in which ways the visit of a package can stop the program.
-/

import UConfig.Program.Process
import UConfig.Proof.Expand.Refinement

namespace UConfig

/-- A stop that is neither a fault nor about the memory nor about the stack of the traversal. -/
structure Stop.Ordinary (stop : Stop) : Prop where
  noFault : stop ≠ .fault
  inMemory : stop ≠ .outOfMemory
  notFull : ∀ tok, stop ≠ .fail (.maxRecursionOn tok)

/-- Every failure of the computation is an ordinary one. -/
def FailsOrdinarily {Value : Type} (result : Except Stop Value) : Prop :=
  ∀ stop, result = .error stop → stop.Ordinary

namespace FailsOrdinarily

variable {Value Result : Type}

/-- A value is no failure. -/
theorem ok (value : Value) : FailsOrdinarily (.ok value : Except Stop Value) := by
  intro stop failed
  cases failed

/-- An ordinary stop fails ordinarily. -/
theorem error {stop : Stop} (ordinary : stop.Ordinary) :
    FailsOrdinarily (.error stop : Except Stop Value) := by
  intro other failed
  cases failed
  exact ordinary

/-- Two computations fail ordinarily one after the other. -/
theorem bind {first : Except Stop Value} {second : Value → Except Stop Result}
    (isFirst : FailsOrdinarily first) (isSecond : ∀ value, FailsOrdinarily (second value)) :
    FailsOrdinarily (first >>= second) := by
  cases first with
  | error stop => exact error (isFirst stop rfl)
  | ok value => exact isSecond value

/-- A loop fails ordinarily when its turns do. -/
theorem foldlM {Item : Type} {turn : Value → Item → Except Stop Value}
    (isTurn : ∀ value item, FailsOrdinarily (turn value item)) (items : List Item) (value : Value) :
    FailsOrdinarily (items.foldlM turn value) := by
  induction items generalizing value with
  | nil => exact ok value
  | cons item items ih =>
      rw [List.foldlM_cons]
      exact bind (isTurn value item) ih

end FailsOrdinarily

open FailsOrdinarily

/-- A file may be unreadable. -/
theorem readPackage_ordinary (mapFile : MapFile) (path realname : S8) :
    FailsOrdinarily (readPackage mapFile path realname) := by
  rw [readPackage]
  split
  case isTrue => exact ok _
  case isFalse =>
    cases mapFile path with
    | ok data => exact ok _
    | notFound => exact ok _
    | readErr => exact error ⟨nofun, nofun, nofun⟩

/-- So may the files of all directories. -/
theorem readDirs_ordinary (mapFile : MapFile) (realname : S8) (dirs : List S8) :
    FailsOrdinarily (readDirs mapFile realname dirs) := by
  induction dirs with
  | nil => exact ok _
  | cons dir dirs ih =>
      refine bind (readPackage_ordinary _ _ _) fun contents => ?_
      cases contents with
      | some data => exact ok _
      | none => exact ih

/-- A package may be missing. -/
theorem locateFile_ordinary (mapFile : MapFile) (dirs : List S8) (realname : S8) :
    FailsOrdinarily (locateFile mapFile dirs realname) := by
  refine bind ?_ fun file => ?_
  · rw [readPath]
    split
    case isTrue => exact bind (readPackage_ordinary _ _ _) fun _ => ok _
    case isFalse => exact ok _
  · cases file with
    | some file => exact ok _
    | none =>
        refine bind (readDirs_ordinary _ _ _) fun file => ?_
        cases file with
        | some file => exact ok _
        | none => exact error ⟨nofun, nofun, nofun⟩

/-- A file may repeat an entry or lack a field. -/
theorem parseFile_ordinary (file : PkgFile) : FailsOrdinarily (parseFile file) := by
  rw [parseFile]
  cases parsePackage file.contents with
  | dupVariable name => exact error ⟨nofun, nofun, nofun⟩
  | dupField name => exact error ⟨nofun, nofun, nofun⟩
  | ok pkg =>
      dsimp only
      split
      · exact error ⟨nofun, nofun, nofun⟩
      · exact ok _

/-- The stack of an expansion is another one. -/
theorem expandField_ordinary (global : Env) (update : Pkg) (f : Field) :
    FailsOrdinarily (expandField global update f) := by
  rw [expandField, expand_eq]
  generalize expandRecursive _ _ _ = expansion
  obtain ⟨written, failure⟩ := expansion
  cases failure with
  | none => exact ok _
  | some failure =>
      cases failure with
      | undefined name => exact error ⟨nofun, nofun, nofun⟩
      | tooDeep run => exact error ⟨nofun, nofun, nofun⟩

/-- An operator may stand in a wrong place. -/
theorem parseSpecsToken_ordinary (p : Option S8) (specs : SpecList) (tok : S8) :
    FailsOrdinarily (parseSpecsToken p specs tok) := by
  rw [parseSpecsToken]
  cases specs.pkg with
  | none =>
      refine bind ?_ fun _ => ok _
      rw [checkNotOp]
      split
      case isTrue => exact error ⟨nofun, nofun, nofun⟩
      case isFalse => exact ok _
  | some pkg =>
      dsimp only
      split
      case isTrue =>
        split
        case isTrue => exact ok _
        case isFalse => exact ok _
      case isFalse => exact ok _

/-- So may one of an argument. -/
theorem parseSpecsArg_ordinary (p : Option S8) (specs : SpecList) (tail : S8) :
    FailsOrdinarily (parseSpecsArg p specs tail) := by
  induction tail using WellFounded.induction (measure List.length).wf generalizing specs with
  | h tail ih =>
      rw [parseSpecsArg]
      split
      case isTrue => exact ok _
      case isFalse found =>
        exact bind (parseSpecsToken_ordinary p specs _) fun specs =>
          ih _ (nextToken_tail_lt tail found) specs

/-- A version may be missing at the end. -/
theorem parseSpecs_ordinary (args : List S8) (p : Option S8) :
    FailsOrdinarily (parseSpecs args p) := by
  refine bind (foldlM (parseSpecsArg_ordinary p) _ _) fun specs => ?_
  cases specs.pkg with
  | none => exact ok _
  | some pkg =>
      dsimp only
      split
      case isTrue => exact error ⟨nofun, nofun, nofun⟩
      case isFalse => exact ok _

/-- The fields fail as their expansions and specifications do. -/
theorem expandMerge_ordinary (global : Env) (base update : Pkg) :
    FailsOrdinarily (expandMerge global base update) := by
  have turn : ∀ base f, FailsOrdinarily (mergeField global update base f) := fun base f =>
    bind (expandField_ordinary global update f) fun _ => ok _
  refine bind (foldlM turn _ _) fun base => ?_
  refine bind (parseSpecs_ordinary _ _) fun specsRequires => ?_
  exact bind (parseSpecs_ordinary _ _) fun specsRequiresPrivate => ok _

/-- A package fails to load in the ordinary ways only. -/
theorem loadPkg_ordinary (proc : Processor) (p : Pkg) (name : S8) :
    FailsOrdinarily (loadPkg proc p name) := by
  refine bind (bind (locateFile_ordinary _ _ _) parseFile_ordinary) fun newpkg => ?_
  exact expandMerge_ordinary _ _ _

/-- An operator that is compared is never the error one. -/
theorem checkVersion_ordinary (proc : Processor) (p : Pkg) (spec : PkgSpec) :
    FailsOrdinarily (checkVersion proc p spec) := by
  rw [checkVersion]
  split
  case isTrue compares =>
    dsimp only
    cases compared : validCompare spec.op (compareVersions ((p.field .version).getD [])
      (spec.version.getD [])) with
    | none =>
        cases isOp : spec.op <;> rw [isOp] at compares compared
        · exact absurd rfl compares.1
        all_goals cases compared
    | some valid =>
        cases valid with
        | true => exact ok _
        | false => exact error ⟨nofun, nofun, nofun⟩
  case isFalse => exact ok _

end UConfig
