/-
This file proves what a loaded package holds.
-/

import UConfig.Program.Process

namespace UConfig

/-- Storing a value keeps the contents and the flags. -/
theorem Target.store_kept (target : Target) (pkg : Pkg) (value : S8) :
    (target.store pkg value).contents = pkg.contents ∧
      (target.store pkg value).flags = pkg.flags := by
  cases target <;> exact ⟨rfl, rfl⟩

/-- A line changes neither the contents nor the flags. -/
theorem scanLine_kept {pkg pkg' : Pkg} {p q : S8} (scan : scanLine pkg p = .next q pkg') :
    pkg'.contents = pkg.contents ∧ pkg'.flags = pkg.flags := by
  simp only [scanLine] at scan
  split at scan
  · injection scan with _ same
    exact same ▸ ⟨rfl, rfl⟩
  · split at scan
    · injection scan with _ same
      exact same ▸ ⟨rfl, rfl⟩
    · cases scan
    · injection scan with _ same
      rw [← same]
      exact Target.store_kept _ _ _

/-- Neither do all lines. -/
theorem scanLines_kept {pkg pkg' : Pkg} {p : S8} (scan : scanLines pkg p = .ok pkg') :
    pkg'.contents = pkg.contents ∧ pkg'.flags = pkg.flags := by
  fun_induction scanLines pkg p with
  | case1 pkg => exact ParseResult.ok.inj scan ▸ ⟨rfl, rfl⟩
  | case2 pkg p nonempty q next turn ih =>
      have kept := scanLine_kept turn
      have rest := ih scan
      exact ⟨rest.1.trans kept.1, rest.2.trans kept.2⟩
  | case3 pkg p nonempty result turn =>
      subst scan
      simp only [scanLine] at turn
      split at turn
      · cases turn
      · split at turn
        · cases turn
        · rename_i duplicate
          injection turn with same
          rw [same] at duplicate
          simp only [openTarget] at duplicate
          repeat' split at duplicate
          all_goals cases duplicate
        · cases turn

/-- A parsed package remembers its file and has no flags yet. -/
theorem parsePackage_kept {src : S8} {pkg : Pkg} (parsed : parsePackage src = .ok pkg) :
    pkg.contents = some src ∧ pkg.flags = .zero :=
  scanLines_kept parsed

/-- A bind of results succeeds when both of its parts do. -/
theorem bind_eq_ok {Value Result : Type} {first : Except Stop Value}
    {second : Value → Except Stop Result} {result : Result} :
    first >>= second = .ok result ↔ ∃ value, first = .ok value ∧ second value = .ok result := by
  cases first with
  | error stop => exact ⟨fun same => (by cases same), fun ⟨_, same, _⟩ => (by cases same)⟩
  | ok value =>
      exact ⟨fun same => ⟨value, rfl, same⟩, fun ⟨_, same, rest⟩ => Except.ok.inj same ▸ rest⟩

/-- The package of a file has been parsed from it and has the required fields. -/
theorem parseFile_ok {file : PkgFile} {pkg : Pkg} (found : parseFile file = .ok pkg) :
    ∃ parsed, parsePackage file.contents = .ok parsed ∧
      pkg = { parsed with
        path := file.path
        realname := file.realname
        env := parsed.env.assign (S "pcfiledir") (some (s8PathEncode (dirname file.path))) } ∧
      missingField pkg = none := by
  rw [parseFile] at found
  cases parsed : parsePackage file.contents with
  | dupVariable name =>
      rw [parsed] at found
      cases found
  | dupField name =>
      rw [parsed] at found
      cases found
  | ok parsedPkg =>
      rw [parsed] at found
      dsimp only at found
      split at found
      · cases found
      · injection found with same
        subst same
        exact ⟨parsedPkg, rfl, rfl, ‹_›⟩

/-- The prefix changes nothing but the variables. -/
theorem setPrefix_kept (p : Pkg) :
    (setPrefix p).path = p.path ∧ (setPrefix p).contents = p.contents ∧
      (setPrefix p).flags = p.flags ∧ (setPrefix p).field = p.field := by
  unfold setPrefix
  dsimp only
  split <;> exact ⟨rfl, rfl, rfl, rfl⟩

/-- The merge of some fields sets them to their expansions and nothing else. -/
theorem mergeFields_ok {global : Env} {update base merged : Pkg} {fs : List Field}
    (folded : fs.foldlM (mergeField global update) base = .ok merged) :
    (∀ f ∈ fs, ∃ written, expandField global update f = .ok written ∧
      merged.field f = some written) ∧
    (∀ f ∉ fs, merged.field f = base.field f) ∧ merged = { base with field := merged.field } := by
  induction fs generalizing base with
  | nil =>
      have same : base = merged := Except.ok.inj folded
      subst same
      exact ⟨fun f member => (by cases member), fun f _ => rfl, rfl⟩
  | cons first fs ih =>
      rw [List.foldlM_cons] at folded
      obtain ⟨next, turn, folded⟩ := bind_eq_ok.mp folded
      obtain ⟨written, expanded, same⟩ := bind_eq_ok.mp turn
      have same : base.setField first (some written) = next := Except.ok.inj same
      subst same
      obtain ⟨members, others, kept⟩ := ih folded
      refine ⟨fun f member => ?_, fun f absent => ?_, kept⟩
      · by_cases later : f ∈ fs
        · exact members f later
        · have isFirst : f = first := (List.mem_cons.mp member).resolve_right later
          subst isFirst
          exact ⟨written, expanded, (others f later).trans (Function.update_self ..)⟩
      · rw [List.mem_cons, not_or] at absent
        exact (others f absent.2).trans (Function.update_of_ne absent.1 ..)

/-- A merged package has the expanded fields of the update and the name of the base. -/
theorem expandMerge_ok {global : Env} {base update merged : Pkg}
    (expanded : expandMerge global base update = .ok merged) :
    merged.path = update.path ∧ merged.realname = base.realname ∧
      merged.contents = update.contents ∧ merged.env = update.env ∧
      merged.flags = update.flags ∧
      (∀ f, ∃ written, expandField global update f = .ok written ∧
        merged.field f = some written) ∧
      parseSpecs [(merged.field .requires).getD []] (some base.realname) =
        .ok merged.specsRequires ∧
      parseSpecs [(merged.field .requiresPrivate).getD []] (some base.realname) =
        .ok merged.specsRequiresPrivate := by
  obtain ⟨folded, fold, rest⟩ := bind_eq_ok.mp expanded
  obtain ⟨members, _, kept⟩ := mergeFields_ok fold
  obtain ⟨specsRequires, isRequires, rest⟩ := bind_eq_ok.mp rest
  obtain ⟨specsRequiresPrivate, isPrivate, same⟩ := bind_eq_ok.mp rest
  have same := Except.ok.inj same
  rw [kept] at isRequires isPrivate same
  subst same
  exact ⟨rfl, rfl, rfl, rfl, rfl, fun f => members f (mem_fields f), isRequires, isPrivate⟩

/-- The package of a file is merged into its place in the set. -/
def mergeFile (proc : Processor) (p : Pkg) (file : PkgFile) : Except Stop Pkg := do
  let newpkg ← parseFile file
  expandMerge proc.global p (if proc.definePrefix then setPrefix newpkg else newpkg)

/-- Loading a package is locating its file and merging it. -/
theorem loadPkg_eq (proc : Processor) (p : Pkg) (name : S8) :
    loadPkg proc p name = locateFile proc.mapFile proc.search name >>= mergeFile proc p := by
  rw [loadPkg, findPackage]
  cases locateFile proc.mapFile proc.search name <;> rfl

/-- The name that the file was found by does not matter to the merge. -/
theorem mergeFile_congr (proc : Processor) (p : Pkg) {file file' : PkgFile}
    (path : file.path = file'.path) (contents : file.contents = file'.contents) :
    mergeFile proc p file = mergeFile proc p file' := by
  rw [mergeFile, mergeFile, parseFile, parseFile, path, contents]
  cases parsePackage file'.contents with
  | dupVariable name => rfl
  | dupField name => rfl
  | ok pkg =>
      have same : ∀ realname realname', missingField { pkg with
          path := file'.path
          realname := realname
          env := pkg.env.assign (S "pcfiledir") (some (s8PathEncode (dirname file'.path))) } =
        missingField { pkg with
          path := file'.path
          realname := realname'
          env := pkg.env.assign (S "pcfiledir") (some (s8PathEncode (dirname file'.path))) } :=
        fun _ _ => rfl
      dsimp only
      rw [same file.realname file'.realname]
      split
      · rfl
      · cases definePrefix : proc.definePrefix
        · rfl
        · simp only [bind, Except.bind, setPrefix, if_true]
          split <;> rfl

/-- A merged file gives a package with its contents and without flags. -/
theorem mergeFile_ok {proc : Processor} {base pkg : Pkg} {file : PkgFile}
    (merged : mergeFile proc base file = .ok pkg) :
    pkg.realname = base.realname ∧ pkg.path = file.path ∧ pkg.contents = some file.contents ∧
      pkg.flags = .zero := by
  obtain ⟨newpkg, parsed, merged⟩ := bind_eq_ok.mp merged
  obtain ⟨own, isParsed, rfl, _⟩ := parseFile_ok parsed
  obtain ⟨contents, flags⟩ := parsePackage_kept isParsed
  obtain ⟨path', realname, contents', _, flags', _⟩ := expandMerge_ok merged
  have prefixed := setPrefix_kept { own with
    path := file.path
    realname := file.realname
    env := own.env.assign (S "pcfiledir") (some (s8PathEncode (dirname file.path))) }
  rw [path', contents', flags']
  cases proc.definePrefix with
  | true => exact ⟨realname, prefixed.1, prefixed.2.1.trans contents, prefixed.2.2.1.trans flags⟩
  | false => exact ⟨realname, rfl, contents, flags⟩

/-- A loaded package keeps its name, has contents and has no flags yet. -/
theorem loadPkg_kept {proc : Processor} {base pkg : Pkg} {name : S8}
    (loaded : loadPkg proc base name = .ok pkg) :
    pkg.realname = base.realname ∧ pkg.contents.isSome ∧ pkg.flags = .zero := by
  rw [loadPkg_eq] at loaded
  obtain ⟨file, _, merged⟩ := bind_eq_ok.mp loaded
  obtain ⟨realname, _, contents, flags⟩ := mergeFile_ok merged
  exact ⟨realname, by rw [contents]; rfl, flags⟩

end UConfig
