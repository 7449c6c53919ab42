/-
This file proves when the listing of the package files prints what loading them computes.
-/

import UConfig.Program.List
import UConfig.Proof.Expand.References
import UConfig.Proof.Process.Universe

namespace UConfig

/-- Asking for a name loads the package of this listed file. -/
structure LoadsFile (proc : Processor) (dir file asked : S8) (pkg : Pkg) : Prop where
  loads : loadPkg proc (freshPkg (pathToRealname asked)) asked = .ok pkg
  path : pkg.path = (buildPath dir (listName file)).dropLast
  contents : ∃ data, proc.mapFile (buildPath dir (listName file)) = .ok data ∧
    pkg.contents = some data

def listLine (name title : S8) : S8 := name ++ (listPadding name ++ (title ++ S "\n"))

/-- The title of a package is its name and its description. -/
def loadedTitle (pkg : Pkg) : S8 :=
  (pkg.field .name).getD [] ++ (S " - " ++ (pkg.field .description).getD [])

/-- The listing passes all files, and it prints the title of each package that can be loaded. -/
structure ListingAgrees (listing : Listing) (proc : Processor) : Prop where
  complete : list listing proc.mapFile proc.global true proc.search =
    ⟨proc.search.flatMap fun dir => (listing (dir ++ [0])).flatMap fun file =>
      (listFile proc.mapFile proc.global true dir file).written, none⟩
  agrees : ∀ dir ∈ proc.search, ∀ file ∈ listing (dir ++ [0]), ∀ asked pkg,
    LoadsFile proc dir file asked pkg →
      listFile proc.mapFile proc.global true dir file =
        ⟨listLine (listName file) (loadedTitle pkg), none⟩

/-- The bindings that a package has after loading its file. -/
def loadedEnv (proc : Processor) (path : S8) (env : Env) : Env :=
  let env := env.assign (S "pcfiledir") (some (s8PathEncode (dirname path)))
  if proc.definePrefix = true ∧ S "pkgconfig" = basename (dirname path) then
    env.assign (S "prefix") (some (s8PathEncode (dirname (dirname (dirname path)))))
  else env

/-- The expansion of the name and the description with these values. -/
def titleExpansion (value : S8 → Option S8) (own : Pkg) : Expansion :=
  (expandRecursive value 127 ((own.field .name).getD [])).andThen
    ((Emission.print (S " - ")).andThen
      (expandRecursive value 127 ((own.field .description).getD [])))

/-- The name and the description only have references that are defined and not too deep. -/
structure TitleExpandable (value : S8 → Option S8) (own : Pkg) : Prop where
  name : Expandable value 127 ((own.field .name).getD [])
  description : Expandable value 127 ((own.field .description).getD [])

/-- The name or the description opens a variable. -/
def TitleReaches (value : S8 → Option S8) (own : Pkg) (name : S8) : Prop :=
  Reaches value ((own.field .name).getD []) name ∨
    Reaches value ((own.field .description).getD []) name

/-- The title of a parsed file has this property, which may depend on the place of the file. -/
def EachTitle (listing : Listing) (proc : Processor) (Property : S8 → S8 → Pkg → Prop) : Prop :=
  ∀ dir ∈ proc.search, ∀ file ∈ listing (dir ++ [0]), ∀ data own,
    proc.mapFile (buildPath dir (listName file)) = .ok data → parsePackage data = .ok own →
      Property dir file own

/-- Every title can be expanded without the bindings of loading. -/
def TitlesExpandable (listing : Listing) (proc : Processor) : Prop :=
  EachTitle listing proc fun _ _ own => TitleExpandable (lookup proc.global own.env) own

/-- Every title that can be loaded is the same with the bindings of loading as without them. -/
def TitlesKept (listing : Listing) (proc : Processor) : Prop :=
  EachTitle listing proc fun dir file own => (∃ asked pkg, LoadsFile proc dir file asked pkg) →
    titleExpansion (lookup proc.global
      (loadedEnv proc (buildPath dir (listName file)).dropLast own.env)) own =
        titleExpansion (lookup proc.global own.env) own

/-- No title opens the bindings of loading, unless they are global. -/
def TitlesLocal (listing : Listing) (proc : Processor) : Prop :=
  EachTitle listing proc fun _ _ own => ∀ name, TitleReaches (lookup proc.global own.env) own name →
    name = S "pcfiledir" ∨ name = S "prefix" → (proc.global.find name).isSome

/-- The bindings of loading are only read where no global ones hide them. -/
theorem lookup_loadedEnv (proc : Processor) (path : S8) (env : Env) {name : S8}
    (hidden : name = S "pcfiledir" ∨ name = S "prefix" → (proc.global.find name).isSome) :
    lookup proc.global (loadedEnv proc path env) name = lookup proc.global env name := by
  cases found : proc.global.find name with
  | some value => simp only [lookup, found]
  | none =>
      rw [found] at hidden
      have other : name ≠ S "pcfiledir" ∧ name ≠ S "prefix" := by
        constructor
        · intro same
          cases hidden (.inl same)
        · intro same
          cases hidden (.inr same)
      have kept : (loadedEnv proc path env).find name = env.find name := by
        unfold loadedEnv
        dsimp only
        split
        · rw [Env.find_assign, if_neg other.2, Env.find_assign, if_neg other.1]
        · rw [Env.find_assign, if_neg other.1]
      simp only [lookup, kept]

/-- Local titles do not change with loading. -/
theorem titlesKept_of_local {listing : Listing} {proc : Processor}
    (isLocal : TitlesLocal listing proc) : TitlesKept listing proc := by
  intro dir inSearch file listed data own mapped parsed _
  have hidden := isLocal dir inSearch file listed data own mapped parsed
  rw [titleExpansion, titleExpansion]
  congr 1
  · apply (expandRecursive_congr _ _).symm
    intro name reaches
    exact (lookup_loadedEnv proc _ own.env (hidden name (.inl reaches))).symm
  · congr 1
    apply (expandRecursive_congr _ _).symm
    intro name reaches
    exact (lookup_loadedEnv proc _ own.env (hidden name (.inr reaches))).symm

/-- A field that is expanded has been expanded whole. -/
theorem expandField_eq_ok {global : Env} {update : Pkg} {f : Field} {written : S8}
    (expanded : expandField global update f = .ok written) :
    expand global update.env update.path ((update.field f).getD []) = ⟨written, none⟩ := by
  rw [expandField] at expanded
  generalize expand global update.env update.path ((update.field f).getD []) = result at expanded ⊢
  obtain ⟨text, stop⟩ := result
  cases stop with
  | none => exact congrArg (Emission.mk · none) (Except.ok.inj expanded)
  | some stop => cases expanded

/-- The bindings of loading are the ones that the program makes for the path and the prefix. -/
theorem loadedEnv_eq (proc : Processor) (own : Pkg) (path realname : S8) :
    (let newpkg := { own with
      path := path
      realname := realname
      env := own.env.assign (S "pcfiledir") (some (s8PathEncode (dirname path))) }
    if proc.definePrefix then setPrefix newpkg else newpkg).env = loadedEnv proc path own.env := by
  unfold loadedEnv setPrefix
  dsimp only
  by_cases definePrefix : proc.definePrefix = true
  · rw [if_pos definePrefix]
    by_cases usual : S "pkgconfig" = basename (dirname path)
    · rw [if_pos usual, if_pos ⟨definePrefix, usual⟩]
    · rw [if_neg usual, if_neg fun both => usual both.2]
  · rw [if_neg definePrefix, if_neg fun both => definePrefix both.1]

/-- The package that is merged has the bindings of loading and the fields of the file. -/
theorem mergeFile_field {proc : Processor} {base pkg own : Pkg} {file : PkgFile}
    (merged : mergeFile proc base file = .ok pkg) (parsed : parsePackage file.contents = .ok own)
    (f : Field) : ∃ written, pkg.field f = some written ∧
      expand proc.global (loadedEnv proc file.path own.env) file.path ((own.field f).getD []) =
        ⟨written, none⟩ := by
  obtain ⟨newpkg, found, merged⟩ := bind_eq_ok.mp merged
  obtain ⟨own', parsed', isNew, _⟩ := parseFile_ok found
  rw [parsed] at parsed'
  cases parsed'
  obtain ⟨_, _, _, _, _, expanded, _⟩ := expandMerge_ok merged
  obtain ⟨written, isWritten, isField⟩ := expanded f
  refine ⟨written, isField, ?_⟩
  have env : (if proc.definePrefix then setPrefix newpkg else newpkg).env =
      loadedEnv proc file.path own.env := by
    rw [isNew]
    exact loadedEnv_eq proc own file.path file.realname
  have kept : (if proc.definePrefix then setPrefix newpkg else newpkg).path = file.path ∧
      (if proc.definePrefix then setPrefix newpkg else newpkg).field = own.field := by
    have prefixed := setPrefix_kept newpkg
    have fresh : newpkg.path = file.path ∧ newpkg.field = own.field := by
      rw [isNew]
      exact ⟨rfl, rfl⟩
    split
    · exact ⟨prefixed.1.trans fresh.1, prefixed.2.2.2.trans fresh.2⟩
    · exact fresh
  have written_eq := expandField_eq_ok isWritten
  rwa [env, kept.1, kept.2] at written_eq

/-- The fields of a loaded package are expanded with the bindings of loading. -/
theorem LoadsFile.field_eq {proc : Processor} {dir file asked data : S8} {pkg own : Pkg}
    (loaded : LoadsFile proc dir file asked pkg)
    (mapped : proc.mapFile (buildPath dir (listName file)) = .ok data)
    (parsed : parsePackage data = .ok own) (f : Field) :
    ∃ written, pkg.field f = some written ∧
      expand proc.global (loadedEnv proc (buildPath dir (listName file)).dropLast own.env)
        (buildPath dir (listName file)).dropLast ((own.field f).getD []) = ⟨written, none⟩ := by
  have loads := loaded.loads
  rw [loadPkg_eq] at loads
  obtain ⟨found, _, merged⟩ := bind_eq_ok.mp loads
  obtain ⟨_, path, contents, _⟩ := mergeFile_ok merged
  obtain ⟨data', mapped', contents'⟩ := loaded.contents
  rw [mapped] at mapped'
  cases mapped'
  rw [contents] at contents'
  cases contents'
  have fields := mergeFile_field merged parsed f
  rwa [← path, loaded.path] at fields

/-- The contents of a loaded file have been parsed. -/
theorem LoadsFile.parsed {proc : Processor} {dir file asked : S8} {pkg : Pkg}
    (loaded : LoadsFile proc dir file asked pkg) :
    ∃ data own, proc.mapFile (buildPath dir (listName file)) = .ok data ∧
      parsePackage data = .ok own := by
  have loads := loaded.loads
  rw [loadPkg_eq] at loads
  obtain ⟨found, _, merged⟩ := bind_eq_ok.mp loads
  obtain ⟨_, _, contents, _⟩ := mergeFile_ok merged
  obtain ⟨data, mapped, contents'⟩ := loaded.contents
  rw [contents] at contents'
  cases contents'
  obtain ⟨newpkg, isParsed, _⟩ := bind_eq_ok.mp merged
  obtain ⟨own, parsed, _⟩ := parseFile_ok isParsed
  exact ⟨_, own, mapped, parsed⟩

/-- The recursive expansion of what the program has expanded. -/
theorem expandRecursive_of_expand {global env : Env} {path str written : S8}
    (expanded : expand global env path str = ⟨written, none⟩) :
    expandRecursive (lookup global env) 127 str = ⟨written, none⟩ := by
  have expandable := (expand_succeeds global env path str).mp (by rw [expanded])
  have succeeds := (expandRecursive_succeeds _ _ _).mpr expandable
  rw [expand_of_expandable expandable path] at expanded
  generalize expandRecursive (lookup global env) 127 str = expansion at succeeds expanded
  obtain ⟨text, failure⟩ := expansion
  subst succeeds
  exact congrArg (Emission.mk · none) (congrArg Emission.written expanded)

/-- The title of a loaded package is the expansion with the bindings of loading. -/
theorem LoadsFile.title_eq {proc : Processor} {dir file asked data : S8} {pkg own : Pkg}
    (loaded : LoadsFile proc dir file asked pkg)
    (mapped : proc.mapFile (buildPath dir (listName file)) = .ok data)
    (parsed : parsePackage data = .ok own) :
    titleExpansion (lookup proc.global
      (loadedEnv proc (buildPath dir (listName file)).dropLast own.env)) own =
        ⟨loadedTitle pkg, none⟩ := by
  obtain ⟨name, isName, nameExpanded⟩ := loaded.field_eq mapped parsed .name
  obtain ⟨description, isDescription, expanded⟩ := loaded.field_eq mapped parsed .description
  rw [titleExpansion, expandRecursive_of_expand nameExpanded, expandRecursive_of_expand expanded,
    loadedTitle, isName, isDescription]
  rfl

/-- The title of a listed package is expanded with its own bindings. -/
theorem listTitle_succeeds (global : Env) (own : Pkg) :
    (listTitle global own).stop = none ↔ TitleExpandable (lookup global own.env) own := by
  rw [listTitle, Emission.andThen_succeeds, Emission.andThen_succeeds, expand_succeeds,
    expand_succeeds]
  constructor
  · intro succeeds
    exact ⟨succeeds.1, succeeds.2.2⟩
  · intro expandable
    exact ⟨expandable.name, rfl, expandable.description⟩

/-- A title that can be expanded is printed as its expansion. -/
theorem listTitle_written {global : Env} {own : Pkg}
    (expandable : TitleExpandable (lookup global own.env) own) :
    titleExpansion (lookup global own.env) own = ⟨(listTitle global own).written, none⟩ := by
  have name := expand_of_expandable expandable.name own.path
  have description := expand_of_expandable expandable.description own.path
  rw [titleExpansion, listTitle, expandRecursive_of_expand name,
    expandRecursive_of_expand description, name, description]
  rfl

/-- The line of a parsed file has its title between its padded name and a newline. -/
theorem listFile_eq {proc : Processor} {dir file data : S8} {own : Pkg}
    (mapped : proc.mapFile (buildPath dir (listName file)) = .ok data)
    (parsed : parsePackage data = .ok own) :
    listFile proc.mapFile proc.global true dir file =
      (Emission.print (listName file)).andThen (((Emission.print (listPadding (listName file))).andThen
        (listTitle proc.global own)).andThen (.print (S "\n"))) := by
  simp only [listFile, mapped, parsed, if_true]

/-- A listed file stops the listing exactly when its title is not expandable. -/
theorem listFile_succeeds (proc : Processor) (dir file : S8) :
    (listFile proc.mapFile proc.global true dir file).stop = none ↔
      ∀ data own, proc.mapFile (buildPath dir (listName file)) = .ok data →
        parsePackage data = .ok own → TitleExpandable (lookup proc.global own.env) own := by
  constructor
  · intro succeeds data own mapped parsed
    rw [listFile_eq mapped parsed, Emission.andThen_succeeds, Emission.andThen_succeeds,
      Emission.andThen_succeeds, listTitle_succeeds] at succeeds
    exact succeeds.2.1.2
  · intro expandable
    cases mapped : proc.mapFile (buildPath dir (listName file)) with
    | notFound => simp only [listFile, mapped, Emission.print]
    | readErr => simp only [listFile, mapped, Emission.print]
    | ok data =>
        cases parsed : parsePackage data with
        | dupVariable name => simp only [listFile, mapped, parsed, Emission.print]
        | dupField name => simp only [listFile, mapped, parsed, Emission.print]
        | ok own =>
            have title := (listTitle_succeeds _ _).mpr (expandable data own mapped parsed)
            rw [listFile_eq mapped parsed, Emission.andThen_succeeds, Emission.andThen_succeeds,
              Emission.andThen_succeeds]
            exact ⟨rfl, ⟨rfl, title⟩, rfl⟩

/-- The line of an expandable title. -/
theorem listFile_line {proc : Processor} {dir file data : S8} {own : Pkg}
    (mapped : proc.mapFile (buildPath dir (listName file)) = .ok data)
    (parsed : parsePackage data = .ok own)
    (expandable : TitleExpandable (lookup proc.global own.env) own) :
    listFile proc.mapFile proc.global true dir file =
      ⟨listLine (listName file) (titleExpansion (lookup proc.global own.env) own).written, none⟩ := by
  have title := (listTitle_succeeds proc.global own).mpr expandable
  rw [listTitle_written expandable, listFile_eq mapped parsed]
  generalize listTitle proc.global own = expanded at title
  obtain ⟨written, stop⟩ := expanded
  subst title
  simp [Emission.andThen, Emission.print, listLine]

/-- The files of a directory are all listed exactly when none of them stops the listing. -/
theorem listFiles_eq (mapFile : MapFile) (global : Env) (all : Bool) (dir : S8) (files : List S8) :
    ((listFiles mapFile global all dir files).stop = none ↔
      ∀ file ∈ files, (listFile mapFile global all dir file).stop = none) ∧
    ((listFiles mapFile global all dir files).stop = none →
      (listFiles mapFile global all dir files).written =
        files.flatMap fun file => (listFile mapFile global all dir file).written) := by
  induction files with
  | nil => simp [listFiles, Emission.print]
  | cons file files ih =>
      rw [listFiles, Emission.andThen_succeeds, ih.1, List.forall_mem_cons]
      refine ⟨Iff.rfl, ?_⟩
      intro succeeds
      rw [Emission.andThen_written succeeds.1, ih.2 (ih.1.mpr succeeds.2), List.flatMap_cons]

/-- The whole listing is printed exactly when no file stops it. -/
theorem list_eq (listing : Listing) (mapFile : MapFile) (global : Env) (all : Bool)
    (dirs : List S8) :
    ((list listing mapFile global all dirs).stop = none ↔
      ∀ dir ∈ dirs, ∀ file ∈ listing (dir ++ [0]),
        (listFile mapFile global all dir file).stop = none) ∧
    ((list listing mapFile global all dirs).stop = none →
      (list listing mapFile global all dirs).written =
        dirs.flatMap fun dir => (listing (dir ++ [0])).flatMap fun file =>
          (listFile mapFile global all dir file).written) := by
  induction dirs with
  | nil => simp [list, Emission.print]
  | cons dir dirs ih =>
      have files := listFiles_eq mapFile global all dir (listing (dir ++ [0]))
      rw [list, Emission.andThen_succeeds, files.1, ih.1, List.forall_mem_cons]
      refine ⟨Iff.rfl, ?_⟩
      intro succeeds
      rw [Emission.andThen_written (files.1.mpr succeeds.1), files.2 (files.1.mpr succeeds.1),
        ih.2 (ih.1.mpr succeeds.2), List.flatMap_cons]

/-- The listing is complete exactly when every title is expandable without the bindings of
loading. -/
theorem list_complete (listing : Listing) (proc : Processor) :
    list listing proc.mapFile proc.global true proc.search =
      ⟨proc.search.flatMap fun dir => (listing (dir ++ [0])).flatMap fun file =>
        (listFile proc.mapFile proc.global true dir file).written, none⟩ ↔
      TitlesExpandable listing proc := by
  have whole := list_eq listing proc.mapFile proc.global true proc.search
  have each : (list listing proc.mapFile proc.global true proc.search).stop = none ↔
      TitlesExpandable listing proc := by
    rw [whole.1]
    constructor
    · intro succeeds dir inSearch file listed
      exact (listFile_succeeds proc dir file).mp (succeeds dir inSearch file listed)
    · intro expandable dir inSearch file listed
      exact (listFile_succeeds proc dir file).mpr (expandable dir inSearch file listed)
  rw [← each]
  constructor
  · intro same
    rw [same]
  · intro succeeds
    have written := whole.2 succeeds
    generalize list listing proc.mapFile proc.global true proc.search = listed at succeeds written
    obtain ⟨text, stop⟩ := listed
    rw [← succeeds, ← written]

/-- The listing agrees with loading exactly when every title is expandable without the bindings of
loading and does not change with them, and so when no title opens such a binding. -/
theorem list_agrees (listing : Listing) (proc : Processor) :
    (ListingAgrees listing proc ↔ TitlesExpandable listing proc ∧ TitlesKept listing proc) ∧
    (TitlesExpandable listing proc → TitlesLocal listing proc → ListingAgrees listing proc) := by
  have exact_when : ListingAgrees listing proc ↔
      TitlesExpandable listing proc ∧ TitlesKept listing proc := by
    constructor
    · intro agreement
      have expandable := (list_complete listing proc).mp agreement.complete
      refine ⟨expandable, ?_⟩
      intro dir inSearch file listed data own mapped parsed loadable
      obtain ⟨asked, pkg, loaded⟩ := loadable
      have ownTitle := expandable dir inSearch file listed data own mapped parsed
      have line := agreement.agrees dir inSearch file listed asked pkg loaded
      rw [listFile_line mapped parsed ownTitle] at line
      have same := congrArg Emission.written line
      simp only [listLine, List.append_cancel_left_eq, List.append_cancel_right_eq] at same
      rw [loaded.title_eq mapped parsed, ← same, listTitle_written ownTitle]
    · rintro ⟨expandable, kept⟩
      refine ⟨(list_complete listing proc).mpr expandable, ?_⟩
      intro dir inSearch file listed asked pkg loaded
      obtain ⟨data, own, mapped, parsed⟩ := loaded.parsed
      have same := kept dir inSearch file listed data own mapped parsed ⟨asked, pkg, loaded⟩
      rw [listFile_line mapped parsed (expandable dir inSearch file listed data own mapped parsed),
        ← same, loaded.title_eq mapped parsed]
  refine ⟨exact_when, ?_⟩
  intro expandable isLocal
  exact exact_when.mpr ⟨expandable, titlesKept_of_local isLocal⟩

/-- A package file that describes its own directory. -/
def describedFile : S8 := S "Name: x\nVersion: 1\nDescription: the files in $\x7bpcfiledir\x7d\n"

def describedProcessor : Processor := memoryProcessor [(S "d/x.pc", describedFile)]

def describedListing : Listing := fun _ => [S "x.pc"]

/-- The listing stops at a package that can be loaded. -/
theorem list_stops_at_pcfiledir :
    (∃ pkg, LoadsFile describedProcessor (S "d") (S "x.pc") (S "x") pkg) ∧
      ¬ ListingAgrees describedListing describedProcessor := by
  constructor
  · have loads : (loadPkg describedProcessor (freshPkg (S "x")) (S "x")).toOption.map
        (fun pkg => (pkg.path, pkg.contents)) = some (S "d/x.pc", some describedFile) := by
      delta loadPkg expandMerge mergeField expandField
      rw [expand_eq_recursive]
      decide +kernel
    obtain ⟨pkg, isPkg, same⟩ := Option.map_eq_some_iff.mp loads
    refine ⟨pkg, ?_, congrArg Prod.fst same, describedFile, rfl, congrArg Prod.snd same⟩
    cases result : loadPkg describedProcessor (freshPkg (S "x")) (S "x") with
    | error stop =>
        rw [result] at isPkg
        cases isPkg
    | ok loaded =>
        rw [result] at isPkg
        cases isPkg
        exact result
  · intro agreement
    have stops : (list describedListing describedProcessor.mapFile describedProcessor.global true
        describedProcessor.search).stop.isSome = true := by
      have search : describedProcessor.search = [S "d"] := rfl
      rw [search, list, describedListing, listFiles]
      delta listFile listTitle
      rw [expand_eq_recursive]
      decide +kernel
    rw [agreement.complete] at stops
    cases stops

end UConfig
