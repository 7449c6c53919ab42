/-
This file gives the search for a package file and the merge of its expanded fields.
-/

import UConfig.Program.ParsePackage
import UConfig.Program.PathCode
import UConfig.Program.Expand

namespace UConfig

inductive FileMap where
  | ok (data : S8)
  | notFound
  | readErr

/-- The path of a mapped file includes its null terminator. -/
abbrev MapFile := S8 → FileMap

def uConfigVersion : S8 := S "0.34.0"

/-- The program itself is a package without a file. -/
def virtualPackage : S8 :=
  S "Name: u-config\n" ++ S "Version: " ++ uConfigVersion ++ S "\n" ++ S "Description:\n"

def readPackage (mapFile : MapFile) (path realname : S8) : Except Stop (Option S8) :=
  if realname = S "pkg-config" then .ok (some virtualPackage)
  else
    match mapFile path with
    | .notFound => .ok none
    | .readErr => .error (.fail (.couldNotRead realname path))
    | .ok data => .ok (some data)

/-- A file that was found, with the name that its package has from then on. -/
structure PkgFile where
  path : S8
  contents : S8
  realname : S8

/-- A name that is a path is tried as it is. -/
def readPath (mapFile : MapFile) (realname : S8) : Except Stop (Option PkgFile) :=
  if realnameIsPath realname then do
    let path := realname ++ [0]
    let contents ← readPackage mapFile path realname
    return contents.map fun data => ⟨path.dropLast, data, pathToRealname path.dropLast⟩
  else .ok none

/-- The directories are tried in order until one of them has the file. -/
def readDirs (mapFile : MapFile) (realname : S8) : List S8 → Except Stop (Option PkgFile)
  | [] => .ok none
  | dir :: dirs => do
      let path := buildPath dir realname
      match ← readPackage mapFile path realname with
      | some data => return some ⟨path.dropLast, data, realname⟩
      | none => readDirs mapFile realname dirs

def locateFile (mapFile : MapFile) (dirs : List S8) (realname : S8) : Except Stop PkgFile := do
  match ← readPath mapFile realname with
  | some file => return file
  | none =>
      match ← readDirs mapFile realname dirs with
      | some file => return file
      | none => .error (.fail (.couldNotFind realname))

/-- The fields that every package must have, in the order of the checks. -/
def requiredFields : List Field := [.name, .version, .description]

def missingField (pkg : Pkg) : Option Field := requiredFields.find? fun f => (pkg.field f).isNone

/-- The package of a file knows the directory that the file is in. -/
def parseFile (file : PkgFile) : Except Stop Pkg :=
  match parsePackage file.contents with
  | .dupVariable name => .error (.fail (.duplicateVariable name file.path))
  | .dupField name => .error (.fail (.duplicateField name file.path))
  | .ok pkg =>
      let pcfiledir := s8PathEncode (dirname file.path)
      let pkg := { pkg with
        path := file.path
        realname := file.realname
        env := pkg.env.assign (S "pcfiledir") (some pcfiledir) }
      match missingField pkg with
      | some missing => .error (.fail (.missingField missing.label pkg.path))
      | none => .ok pkg

def findPackage (mapFile : MapFile) (dirs : List S8) (realname : S8) : Except Stop Pkg := do
  let file ← locateFile mapFile dirs realname
  parseFile file

/-- The prefix is only known for a package file in a directory with the usual name. -/
def setPrefix (p : Pkg) : Pkg :=
  let parent := dirname p.path
  if S "pkgconfig" = basename parent then
    let pkgPrefix := dirname (dirname parent)
    { p with env := p.env.assign (S "prefix") (some (s8PathEncode pkgPrefix)) }
  else p

/-- A field that is not set expands like an empty one. -/
def expandField (global : Env) (update : Pkg) (f : Field) : Except Stop S8 :=
  let expanded := expand global update.env update.path ((update.field f).getD [])
  match expanded.stop with
  | some stop => .error stop
  | none => .ok expanded.written

/-- The expanded field goes into the base. -/
def mergeField (global : Env) (update : Pkg) (base : Pkg) (f : Field) : Except Stop Pkg := do
  let written ← expandField global update f
  return base.setField f (some written)

/-- Merge and expand data from `update` into `base`. -/
def expandMerge (global : Env) (base update : Pkg) : Except Stop Pkg := do
  let base := { base with
    path := update.path
    contents := update.contents
    env := update.env
    flags := update.flags }
  let base ← fields.foldlM (mergeField global update) base
  let specsRequires ← parseSpecs [(base.field .requires).getD []] (some base.realname)
  let specsRequiresPrivate ←
    parseSpecs [(base.field .requiresPrivate).getD []] (some base.realname)
  return { base with
    specsRequires := specsRequires
    specsRequiresPrivate := specsRequiresPrivate }

end UConfig
