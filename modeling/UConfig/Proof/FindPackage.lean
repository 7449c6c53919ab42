/-
This file proves which file a package name stands for.
-/

import UConfig.Proof.Process.Load

namespace UConfig

/-- A file system without read errors holds the contents of some paths. -/
abbrev FileSystem := S8 → Option S8

/-- A file is mapped by its path and a null terminator. -/
def FileSystem.map (fs : FileSystem) : MapFile := fun path =>
  match fs path.dropLast with
  | some contents => .ok contents
  | none => .notFound

/-- The file that is loaded, or the virtual package, or neither of them. -/
inductive Resolution where
  | file (file : PkgFile)
  | virtual
  | missing

/-- The path of the package in a directory. -/
def dirPath (name dir : S8) : S8 := dir ++ S "/" ++ name ++ S ".pc"

/-- The first directory that has a file for the name. -/
def fileInDirs (fs : FileSystem) (dirs : List S8) (name : S8) : Option PkgFile :=
  dirs.findSome? fun dir =>
    (fs (dirPath name dir)).map fun contents => ⟨dirPath name dir, contents, name⟩

/-- A name with the extension of a package file is a path first.
The virtual package needs no file, and any other package is in one of the directories. -/
def resolve (fs : FileSystem) (dirs : List S8) (name : S8) : Resolution :=
  match if 3 < name.length ∧ S ".pc" <:+ name then fs name else none with
  | some contents => .file ⟨name, contents, pathToRealname name⟩
  | none =>
      if name = S "pkg-config" then .virtual
      else
        match fileInDirs fs dirs name with
        | some file => .file file
        | none => .missing

/-- A path with its null terminator maps the file. -/
theorem FileSystem.map_terminated (fs : FileSystem) (path : S8) : fs.map (path ++ [0]) =
    match fs path with
    | some contents => .ok contents
    | none => .notFound := by
  rw [FileSystem.map, List.dropLast_concat]

/-- A name that is not virtual reads the file at its path. -/
theorem readPackage_map (fs : FileSystem) (path : S8) {name : S8} (notVirtual : name ≠ S "pkg-config") :
    readPackage fs.map (path ++ [0]) name = .ok (fs path) := by
  rw [readPackage, if_neg notVirtual, fs.map_terminated]
  cases fs path <;> rfl

/-- A path ends in the extension and has something before it. -/
theorem realnameIsPath_iff {name : S8} :
    realnameIsPath name = true ↔ 3 < name.length ∧ S ".pc" <:+ name := by
  rw [realnameIsPath, Bool.and_eq_true, decide_eq_true_eq, beq_iff_eq]
  apply and_congr_right
  intro long
  rw [List.suffix_iff_eq_drop, eq_comm]
  rfl

/-- A path is only read when the name is one. -/
theorem readPath_map (fs : FileSystem) (name : S8) : readPath fs.map name =
    .ok ((if 3 < name.length ∧ S ".pc" <:+ name then fs name else none).map fun contents =>
      ⟨name, contents, pathToRealname name⟩) := by
  rw [readPath]
  split
  case isTrue isPath =>
    have notVirtual : name ≠ S "pkg-config" := by
      rintro rfl
      cases isPath
    dsimp only
    rw [if_pos (realnameIsPath_iff.mp isPath), readPackage_map fs name notVirtual,
      List.dropLast_concat]
    rfl
  case isFalse notPath =>
    rw [if_neg fun both => notPath (realnameIsPath_iff.mpr both)]
    rfl

/-- The directories are read until one of them has the file. -/
theorem readDirs_map (fs : FileSystem) (dirs : List S8) {name : S8}
    (notVirtual : name ≠ S "pkg-config") :
    readDirs fs.map name dirs = .ok (fileInDirs fs dirs name) := by
  induction dirs with
  | nil => rfl
  | cons dir dirs ih =>
      have read := readPackage_map fs (dirPath name dir) notVirtual
      have path : buildPath dir name = dirPath name dir ++ [0] := rfl
      rw [readDirs, path, read, fileInDirs, List.findSome?_cons, List.dropLast_concat]
      cases fs (dirPath name dir) with
      | none => exact ih
      | some contents => rfl

/-- The name of the virtual package finds it at the first directory. -/
theorem readDirs_virtual (mapFile : MapFile) (dirs : List S8) :
    readDirs mapFile (S "pkg-config") dirs = .ok (dirs.head?.map fun dir =>
      ⟨dirPath (S "pkg-config") dir, virtualPackage, S "pkg-config"⟩) := by
  cases dirs with
  | nil => rfl
  | cons dir dirs =>
      have path : (buildPath dir (S "pkg-config")).dropLast = dirPath (S "pkg-config") dir :=
        List.dropLast_concat
      rw [readDirs, readPackage, if_pos rfl, path]
      rfl

/-- Loading a package never fails because it could not be found. -/
theorem parseFile_ne_couldNotFind (file : PkgFile) (name : S8) :
    parseFile file ≠ .error (.fail (.couldNotFind name)) := by
  intro failed
  rw [parseFile] at failed
  cases parsed : parsePackage file.contents <;> rw [parsed] at failed
  · dsimp only at failed
    split at failed <;> cases failed
  · cases failed
  · cases failed

/-- The file that the name stands for is loaded with its path, and a name that stands for nothing
is reported. -/
def Resolves (fs : FileSystem) (dirs : List S8) (name : S8) : Prop :=
  match resolve fs dirs name with
  | .file file => findPackage fs.map dirs name = parseFile file
  | .virtual => ∃ path,
      findPackage fs.map dirs name = parseFile ⟨path, virtualPackage, S "pkg-config"⟩
  | .missing => findPackage fs.map dirs name = .error (.fail (.couldNotFind name))

/-- A file is located where the search resolves it. -/
theorem locateFile_map (fs : FileSystem) (dirs : List S8) (name : S8) : locateFile fs.map dirs name =
    match resolve fs dirs name with
    | .file file => .ok file
    | .virtual =>
        match dirs with
        | [] => .error (.fail (.couldNotFind name))
        | dir :: _ => .ok ⟨dirPath name dir, virtualPackage, name⟩
    | .missing => .error (.fail (.couldNotFind name)) := by
  rw [locateFile, readPath_map, resolve]
  cases if 3 < name.length ∧ S ".pc" <:+ name then fs name else none with
  | some contents => rfl
  | none =>
      dsimp only
      by_cases isVirtual : name = S "pkg-config"
      · subst isVirtual
        change (readDirs fs.map (S "pkg-config") dirs >>= _) = _
        rw [readDirs_virtual, if_pos rfl]
        cases dirs <;> rfl
      · change (readDirs fs.map name dirs >>= _) = _
        rw [readDirs_map fs dirs isVirtual, if_neg isVirtual]
        cases fileInDirs fs dirs name <;> rfl

/-- Only one name is virtual. -/
theorem resolve_virtual_iff (fs : FileSystem) (dirs : List S8) (name : S8) :
    resolve fs dirs name = .virtual ↔ name = S "pkg-config" := by
  constructor
  · intro resolved
    rw [resolve] at resolved
    split at resolved
    · cases resolved
    · split at resolved
      case isTrue isVirtual => exact isVirtual
      case isFalse => split at resolved <;> cases resolved
  · rintro rfl
    have notPath : ¬(3 < (S "pkg-config").length ∧ S ".pc" <:+ S "pkg-config") := by decide
    rw [resolve, if_neg notPath]
    rfl

/-- A name is resolved unless it is the virtual package and there is no directory.
The package has the path of its file, and only a name that stands for nothing is not found. -/
theorem findPackage_resolves (fs : FileSystem) (dirs : List S8) (name : S8) :
    (Resolves fs dirs name ↔ ¬(name = S "pkg-config" ∧ dirs = [])) ∧
    (∀ file pkg, parseFile file = .ok pkg → pkg.path = file.path) ∧
    ∀ file other, parseFile file ≠ .error (.fail (.couldNotFind other)) := by
  refine ⟨?_, ?_, parseFile_ne_couldNotFind⟩
  · have located := locateFile_map fs dirs name
    have isVirtual := resolve_virtual_iff fs dirs name
    rw [Resolves, findPackage]
    cases resolved : resolve fs dirs name with
    | file file =>
        rw [resolved] at located isVirtual
        rw [located]
        exact iff_of_true rfl fun both => by cases isVirtual.mpr both.1
    | missing =>
        rw [resolved] at located isVirtual
        rw [located]
        exact iff_of_true rfl fun both => by cases isVirtual.mpr both.1
    | virtual =>
        obtain rfl := isVirtual.mp resolved
        rw [resolved] at located
        rw [located]
        cases dirs with
        | nil =>
            refine iff_of_false ?_ fun filled => filled ⟨rfl, rfl⟩
            rintro ⟨path, same⟩
            exact parseFile_ne_couldNotFind _ _ same.symm
        | cons dir dirs => exact iff_of_true ⟨_, rfl⟩ fun both => List.cons_ne_nil _ _ both.2
  · intro file pkg found
    obtain ⟨parsed, _, rfl, _⟩ := parseFile_ok found
    rfl

/-- The virtual package is not found when there is no directory to search. -/
theorem findPackage_misses_virtual : resolve (fun _ => none) [] (S "pkg-config") = .virtual ∧
    findPackage (FileSystem.map fun _ => none) [] (S "pkg-config") =
      .error (.fail (.couldNotFind (S "pkg-config"))) :=
  ⟨(resolve_virtual_iff _ _ _).mpr rfl, rfl⟩

end UConfig
