/-
This file proves that every run of the program ends, and which command lines make it fault.
-/

import UConfig.Proof.Main.Run
import UConfig.Proof.Options.Paths

namespace UConfig

/-- The printing may stop, but not with a fault. -/
def Expanded.Safe (expanded : Expanded) : Prop := ∀ stop, expanded.stop = some stop → stop.Ordinary

namespace Expanded.Safe

/-- A text is printed without a stop. -/
theorem print (s : S8) : Expanded.Safe (.print s) := by
  intro stop stopped
  cases stopped

/-- Two safe printings are safe one after the other. -/
theorem andThen {first second : Expanded} (isFirst : first.Safe) (isSecond : second.Safe) :
    Expanded.Safe (first.andThen second) := by
  intro stop stopped
  rw [Emission.andThen] at stopped
  split at stopped
  case h_1 => exact isSecond stop stopped
  case h_2 other failed =>
    cases stopped
    exact isFirst stop failed

/-- An expansion stops in the ordinary ways only. -/
theorem expand (global env : Env) (path str : S8) : (expand global env path str).Safe := by
  rw [expand_eq]
  generalize expandRecursive _ _ _ = expansion
  obtain ⟨written, failure⟩ := expansion
  intro stop stopped
  cases failure with
  | none => cases stopped
  | some failure =>
      cases failure with
      | undefined name =>
          cases stopped
          exact ⟨nofun, nofun, nofun⟩
      | tooDeep run =>
          cases stopped
          exact ⟨nofun, nofun, nofun⟩

/-- So does the printing of a variable. -/
theorem printVariable (global : Env) (name : S8) (p : Pkg) :
    (printVariable global name p).Safe := by
  rw [UConfig.printVariable]
  split
  case isFalse => exact print []
  case isTrue =>
    split
    case h_2 => exact print []
    case h_1 value found =>
      have expanded := expand global p.env p.path value
      dsimp only
      split
      case h_1 stop stopped => exact expanded
      case h_2 => exact print _

/-- Packages are printed safely when each of them is. -/
theorem forPackages {turn : Pkg → Expanded} (isTurn : ∀ p, (turn p).Safe) (packages : List Pkg) :
    (forPackages turn packages).Safe := by
  induction packages with
  | nil => exact print []
  | cons p packages ih => exact (isTurn p).andThen ih

/-- The line of a file is printed safely. -/
theorem listFile (mapFile : MapFile) (global : Env) (all : Bool) (dir file : S8) :
    (listFile mapFile global all dir file).Safe := by
  rw [UConfig.listFile]
  dsimp only
  split
  case h_1 => exact print []
  case h_2 => exact print []
  case h_3 =>
    split
    case h_1 => exact print []
    case h_2 => exact print []
    case h_3 pkg parsed =>
      have title : Expanded.Safe (if all then (Emission.print (listPadding (listName file))).andThen
          (listTitle global pkg) else .print []) := by
        split
        · exact (print _).andThen ((expand _ _ _ _).andThen ((print _).andThen (expand _ _ _ _)))
        · exact print []
      exact (print _).andThen (title.andThen (print _))

/-- The whole listing is printed safely. -/
theorem list (listing : Listing) (mapFile : MapFile) (global : Env) (all : Bool)
    (dirs : List S8) : (list listing mapFile global all dirs).Safe := by
  have files : ∀ dir names, (listFiles mapFile global all dir names).Safe := by
    intro dir names
    induction names with
    | nil => exact print []
    | cons file names ih => exact (listFile mapFile global all dir file).andThen ih
  induction dirs with
  | nil => exact print []
  | cons dir dirs ih => exact (files dir _).andThen ih

end Expanded.Safe

namespace FailsOrdinarily

/-- A field only fails for an open quote. -/
theorem appendField (w : FieldWriter) (realname field : S8) :
    FailsOrdinarily (appendField w realname field) := by
  fun_induction UConfig.appendField w realname field with
  | case1 => exact ok _
  | case2 => exact error ⟨nofun, nofun, nofun⟩
  | case3 => assumption

/-- So do all fields. -/
theorem writeFields (settings : Settings) (filter : Filter) (exclude : Args → Args)
    (select : Pkg → List Field) (packages : List Pkg) (output : ArgOutput) :
    FailsOrdinarily (writeFields settings filter exclude select packages output) := by
  refine bind (foldlM (fun w p => ?_) packages _) fun w => ok _
  exact foldlM (fun w field => appendField w p.realname _) (select p) w

/-- So do the compiler flags. -/
theorem writeCflags (conf : Config) (settings : Settings) (packages : List Pkg)
    (output : ArgOutput) : FailsOrdinarily (writeCflags conf settings packages output) := by
  rw [UConfig.writeCflags]
  split
  · exact writeFields _ _ _ _ _ _
  · exact ok _

/-- So do the linker flags. -/
theorem writeLibs (conf : Config) (settings : Settings) (packages : List Pkg)
    (output : ArgOutput) : FailsOrdinarily (writeLibs conf settings packages output) := by
  rw [UConfig.writeLibs]
  split
  · exact writeFields _ _ _ _ _ _
  · exact ok _

/-- The versions are only compared when there is an operator. -/
theorem checkOverrides (settings : Settings) (packages : List Pkg) :
    FailsOrdinarily (checkOverrides settings packages) := by
  rw [UConfig.checkOverrides]
  split
  case isTrue => exact ok _
  case isFalse overrides =>
    have check : ∀ p, FailsOrdinarily (checkOverride settings p) := by
      intro p
      rw [checkOverride]
      cases compared : validCompare settings.overrideOp (compareVersions (p.text .version)
        (settings.overrideVersion.getD [])) with
      | none =>
          cases isOp : settings.overrideOp <;> rw [isOp] at overrides compared
          · exact absurd rfl overrides
          all_goals cases compared
      | some valid =>
          cases valid with
          | true => exact ok _
          | false => exact error ⟨nofun, nofun, nofun⟩
    induction packages with
    | nil => exact ok _
    | cons p packages ih => exact bind (check p) fun _ => ih

end FailsOrdinarily

/-- The line of flags is printed safely. -/
theorem printArgs_safe (conf : Config) (settings : Settings) (packages : List Pkg) :
    (printArgs conf settings packages).Safe := by
  rw [printArgs]
  cases cflags : writeCflags conf settings packages ⟨0, []⟩ with
  | error stop =>
      rintro other ⟨⟩
      exact FailsOrdinarily.writeCflags _ _ _ _ _ cflags
  | ok output =>
      dsimp only
      cases libs : writeLibs conf settings packages output with
      | error stop =>
          rintro other ⟨⟩
          exact FailsOrdinarily.writeLibs _ _ _ _ _ libs
      | ok output => exact Expanded.Safe.print _

/-- Every answer is printed safely. -/
theorem answer_safe (conf : Config) (settings : Settings) (packages : List Pkg) :
    (answer conf settings packages).Safe := by
  rw [answer]
  cases checked : checkOverrides settings packages with
  | error stop =>
      rintro other ⟨⟩
      exact FailsOrdinarily.checkOverrides _ _ _ checked
  | ok checkedAll =>
      have versions : (printModVersions settings packages).Safe := by
        rw [printModVersions]
        split
        · refine .forPackages (fun p => ?_) packages
          rw [printModVersion]
          split <;> exact .print _
        · exact .print []
      have values : (printVariables settings packages).Safe := by
        rw [printVariables]
        split
        · exact .forPackages (fun p => .printVariable _ _ p) packages
        · exact .print []
      exact versions.andThen (values.andThen (printArgs_safe conf settings packages))

/-- The report of a safe printing does not fault. -/
theorem Expanded.Safe.report {expanded : Expanded} (safe : expanded.Safe) :
    expanded.report.halt ≠ some (.stop .fault) := by
  intro halted
  obtain ⟨stop, stopped, isFault⟩ := Option.map_eq_some_iff.mp halted
  cases isFault
  exact (safe _ stopped).noFault rfl

/-- Settings always lead to a report that is not a fault. -/
theorem exists_reports (platform : Platform) (conf : Config) (settings : Settings) :
    ∃ report, Reports platform conf settings report ∧ report.halt ≠ some (.stop .fault) := by
  cases listing : settings.listing with
  | all =>
      refine ⟨_, ⟨0, ?_⟩, (Expanded.Safe.list platform.listing platform.mapFile settings.global
        true settings.dirs).report⟩
      rw [runSettings, listing]
      rfl
  | names =>
      refine ⟨_, ⟨0, ?_⟩, (Expanded.Safe.list platform.listing platform.mapFile settings.global
        false settings.dirs).report⟩
      rw [runSettings, listing]
      rfl
  | none =>
      cases parsed : parseSpecs settings.args none with
      | error stop =>
          refine ⟨⟨[], some (.stop stop)⟩, ⟨0, by rw [runSettings, listing, parsed]⟩, ?_⟩
          rintro ⟨⟩
          exact (parseSpecs_ordinary _ _ _ parsed).noFault rfl
      | ok specs =>
          obtain ⟨result, ends, isResult⟩ :=
            (stackSearch_start (settings.processor platform) specs).ends
          obtain ⟨fuel, returned⟩ := Loop.run_of_ends ends
          refine ⟨processReport conf settings result, ⟨fuel, ?_⟩, ?_⟩
          · rw [runSettings, listing, parsed]
            dsimp only
            rw [process, returned]
            rfl
          · cases result with
            | error stop =>
                rintro ⟨⟩
                exact isResult.noFault rfl
            | ok pkgs =>
                rw [processReport, answerPackages]
                split
                · exact nofun
                · exact (answer_safe conf settings _).report

/-- A path without directories is put in front of directories, after options that are accepted. -/
def FaultyPath (conf : Config) (items : List Item) : Prop :=
  ∃ before item after path settings, items = before ++ item :: after ∧
    followItems conf (startSettings conf) before = .inl settings ∧
    item.withPath? = some path ∧ components path conf.delim = [] ∧
    commandDirs conf before ≠ []

/-- The program is ended by one of its items. -/
theorem followItems_halts {conf : Config} {items : List Item} {settings : Settings}
    {report : Report} (followed : followItems conf settings items = .inr report) :
    ∃ before item after middle, items = before ++ item :: after ∧
      followItems conf settings before = .inl middle ∧ item.effect conf middle = .inr report := by
  induction items generalizing settings with
  | nil => cases followed
  | cons item items ih =>
      rw [followItems] at followed
      cases effect : item.effect conf settings with
      | inr other =>
          rw [effect] at followed
          cases followed
          exact ⟨[], item, items, settings, rfl, rfl, effect⟩
      | inl next =>
          rw [effect] at followed
          obtain ⟨before, last, after, middle, rfl, early, ends⟩ := ih followed
          refine ⟨item :: before, last, after, middle, rfl, ?_, ends⟩
          rw [followItems, effect]
          exact early

/-- A call after calls that have succeeded fails for a path that has nothing to put in front. -/
theorem prepend_fails_iff {conf : Config} {calls : List PathCall} {state : Nodes × Search}
    (run : runCalls ([], newSearch conf.delim) calls = some state) (path : S8) :
    runCalls ([], newSearch conf.delim) (calls ++ [.prepend path]) = none ↔
      components path conf.delim = [] ∧ searchDirs conf.delim calls ≠ [] := by
  have safe : PrependsComponents conf.delim calls := by
    rcases runCalls_outcome [] conf.delim calls with ⟨safe, _⟩ | ⟨_, fails⟩
    · exact safe
    · rw [run] at fails
      cases fails
  constructor
  · intro fails
    rcases runCalls_outcome [] conf.delim (calls ++ [.prepend path]) with
      ⟨_, _, succeeds, _⟩ | ⟨notSafe, _⟩
    · rw [fails] at succeeds
      cases succeeds
    · rw [prependsComponents_concat] at notSafe
      by_contra missing
      refine notSafe ⟨safe, ?_⟩
      rintro other ⟨⟩ filled nothing
      exact missing ⟨nothing, filled⟩
  · rintro ⟨nothing, filled⟩
    rcases runCalls_outcome [] conf.delim (calls ++ [.prepend path]) with
      ⟨safe', _⟩ | ⟨_, fails⟩
    · exact absurd nothing ((prependsComponents_concat.mp safe').2 path rfl filled)
    · exact fails

/-- The options fault at a faulty path and nowhere else. -/
theorem followItems_fault_iff {conf : Config} {items : List Item} :
    followItems conf (startSettings conf) items = .inr ⟨[], some (.stop .fault)⟩ ↔
      FaultyPath conf items := by
  constructor
  · intro followed
    obtain ⟨before, item, after, middle, rfl, early, effect⟩ := followItems_halts followed
    have searches := followItems_searches early
    obtain ⟨path, isPath, fails⟩ := effect_faults searches effect rfl
    obtain ⟨nothing, filled⟩ := (prepend_fails_iff searches path).mp fails
    rw [searchDirs_pathCalls] at filled
    exact ⟨before, item, after, path, middle, rfl, early, isPath, nothing, filled⟩
  · rintro ⟨before, item, after, path, middle, rfl, early, isPath, nothing, filled⟩
    have searches := followItems_searches early
    rw [← searchDirs_pathCalls] at filled
    have fails := (prepend_fails_iff searches path).mpr ⟨nothing, filled⟩
    rw [runCalls_concat, searches] at fails
    have effect : item.effect conf middle = .inr ⟨[], some (.stop .fault)⟩ := by
      rcases item.withPath_cases conf middle with ⟨other, isOther, same⟩ | ⟨isNone, _⟩
      · rw [isPath] at isOther
        cases isOther
        have null : prependPath middle.nodes middle.search path = none := fails
        rw [same, Settings.apply, null]
      · rw [isPath] at isNone
        cases isNone
    rw [followItems_append, early]
    dsimp only
    rw [followItems, effect]

/-- Only a faulty path makes the options fault. -/
theorem followItems_noFault {conf : Config} {items : List Item} {report : Report}
    (safe : ¬FaultyPath conf items)
    (followed : followItems conf (startSettings conf) items = .inr report) :
    report.halt ≠ some (.stop .fault) := by
  intro fault
  obtain ⟨before, item, after, middle, rfl, early, effect⟩ := followItems_halts followed
  have searches := followItems_searches early
  obtain ⟨path, isPath, fails⟩ := effect_faults searches effect fault
  obtain ⟨nothing, filled⟩ := (prepend_fails_iff searches path).mp fails
  rw [searchDirs_pathCalls] at filled
  exact safe ⟨before, item, after, path, middle, rfl, early, isPath, nothing, filled⟩

/-- As long as its memory suffices every run of the program ends, whatever its platform, its
configuration and its command line are. It faults when a path without directories is put in front of a search list that is not empty,
and otherwise it leaves with an exit status. -/
theorem uconfig_ends {args : List S8} {items : List Item} (spells : Spells args items)
    (platform : Platform) (conf : Config) :
    (FaultyPath conf items ∧ Finishes platform (conf.withArgs args) (.error .fault)) ∨
      (¬FaultyPath conf items ∧ ∃ exit, Finishes platform (conf.withArgs args) (.ok exit)) := by
  simp only [finishes_withArgs spells]
  by_cases faulty : FaultyPath conf items
  · refine .inl ⟨faulty, ?_⟩
    rw [followItems_fault_iff.mpr faulty]
    exact leaves_error_iff.mpr ⟨rfl, rfl⟩
  · refine .inr ⟨faulty, ?_⟩
    cases followed : followItems conf (startSettings conf) items with
    | inr report =>
        obtain ⟨exit, leaves, _⟩ := exists_leaves .own (followItems_noFault faulty followed)
        exact ⟨exit, leaves⟩
    | inl settings =>
        obtain ⟨report, reports, noFault⟩ := exists_reports platform conf settings
        obtain ⟨exit, leaves, _⟩ := exists_leaves settings.errors noFault
        exact ⟨exit, report, reports, leaves⟩

/-- A path of one delimiter faults. -/
theorem uconfig_ends_delimiter :
    Finishes emptyPlatform (plainConfig.withArgs [S "--with-path", S ":"]) (.error .fault) := by
  have needs : needsValue (S "-with-path") = true := by decide +kernel
  have spells : Spells [S "--with-path", S ":"] [.option (S "-with-path") (some (S ":"))] :=
    .detached (S ":") (by decide) needs .nil
  have faulty : FaultyPath plainConfig [.option (S "-with-path") (some (S ":"))] :=
    ⟨[], _, [], S ":", startSettings plainConfig, rfl, rfl, by decide +kernel, by decide +kernel,
      by decide +kernel⟩
  rcases uconfig_ends spells emptyPlatform plainConfig with ⟨_, faults⟩ | ⟨safe, _⟩
  · exact faults
  · exact absurd faulty safe

end UConfig
