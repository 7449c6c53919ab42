/-
This file proves which directories are searched after any command line.
-/

import UConfig.Program.Main
import UConfig.Proof.Options.Frame
import UConfig.Proof.SearchPath

namespace UConfig

/-- The path of an item that puts directories in front of the search list. -/
def Item.withPath? : Item → Option S8
  | option name value => if optionByName name = some .withPath then some (value.getD []) else none
  | operand _ | missing _ => none

/-- The calls that a command line makes to its search list. -/
def pathCalls (conf : Config) (items : List Item) : List PathCall :=
  [.append (conf.envPath.getD []), .append (conf.fixedPath.getD [])] ++
    (items.filterMap Item.withPath?).map .prepend

/-- Further items add their paths behind the others. -/
theorem pathCalls_append (conf : Config) (first second : List Item) :
    pathCalls conf (first ++ second) =
      pathCalls conf first ++ (second.filterMap Item.withPath?).map .prepend := by
  rw [pathCalls, pathCalls, List.filterMap_append, List.map_append, List.append_assoc]

/-- The search list of the settings is the one that these calls give. -/
def Settings.Searches (settings : Settings) (conf : Config) (calls : List PathCall) : Prop :=
  runCalls ([], newSearch conf.delim) calls = some (settings.nodes, settings.search)

/-- The first settings search what the configuration says. -/
theorem startSettings_searches (conf : Config) :
    (startSettings conf).Searches conf (pathCalls conf []) := rfl

/-- The other options leave the search list alone. -/
theorem apply_search {conf : Config} {settings next : Settings} {option : OptionName} {value : S8}
    (other : option ≠ .withPath) (applied : settings.apply conf option value = .inl next) :
    next.nodes = settings.nodes ∧ next.search = settings.search := by
  rw [Settings.apply_update applied]
  cases option with
  | withPath => exact absurd rfl other
  | defineVariable | listAll | listPackageNames => simp
  | _ => exact ⟨rfl, rfl⟩

/-- The other options do not fault. -/
theorem apply_noFault {conf : Config} {settings : Settings} {option : OptionName} {value : S8}
    {report : Report} (other : option ≠ .withPath)
    (applied : settings.apply conf option value = .inr report) :
    report.halt ≠ some (.stop .fault) := by
  cases option with
  | withPath => exact absurd rfl other
  | defineVariable =>
      simp only [Settings.apply, failUsage] at applied
      split at applied <;> cases applied
      intro fault
      cases fault
  | listAll | listPackageNames =>
      simp only [Settings.apply, Settings.list, failUsage] at applied
      split at applied <;> cases applied
      intro fault
      cases fault
  | _ =>
      intro fault
      cases applied
      try cases fault

/-- An item either names a path for the search list, or it does not concern it. -/
theorem Item.withPath_cases (item : Item) (conf : Config) (settings : Settings) :
    (∃ path, item.withPath? = some path ∧
      item.effect conf settings = settings.apply conf .withPath path) ∨
    (item.withPath? = none ∧
      (∀ next, item.effect conf settings = .inl next →
        next.nodes = settings.nodes ∧ next.search = settings.search) ∧
      ∀ report, item.effect conf settings = .inr report →
        report.halt ≠ some (.stop .fault)) := by
  cases item with
  | operand arg =>
      refine .inr ⟨rfl, ?_, ?_⟩
      · rintro next ⟨⟩
        exact ⟨rfl, rfl⟩
      · intro report effect
        cases effect
  | missing name =>
      refine .inr ⟨rfl, ?_, ?_⟩
      · intro next effect
        cases effect
      · rintro report ⟨⟩ fault
        cases fault
  | option name value =>
      by_cases isPath : optionByName name = some .withPath
      · exact .inl ⟨_, if_pos isPath, by simp only [effect, isPath]⟩
      · refine .inr ⟨if_neg isPath, ?_⟩
        rw [effect]
        cases found : optionByName name with
        | none =>
            constructor
            · intro next effect
              cases effect
            · rintro report ⟨⟩ fault
              cases fault
        | some known =>
            have other : known ≠ .withPath := by
              rintro rfl
              exact isPath found
            exact ⟨fun next => apply_search other, fun report => apply_noFault other⟩

/-- Each item adds its own call to the search list. -/
theorem effect_searches {conf : Config} {settings next : Settings} {item : Item}
    {calls : List PathCall} (searches : settings.Searches conf calls)
    (effect : item.effect conf settings = .inl next) :
    next.Searches conf (calls ++ item.withPath?.toList.map .prepend) := by
  rcases item.withPath_cases conf settings with ⟨path, isPath, same⟩ | ⟨isNone, kept, _⟩
  · rw [isPath]
    rw [same, Settings.apply] at effect
    cases prepended : prependPath settings.nodes settings.search path with
    | none =>
        rw [prepended] at effect
        cases effect
    | some dirs =>
        rw [prepended] at effect
        cases effect
        rw [Settings.Searches] at searches ⊢
        rw [Option.toList_some, List.map_singleton, runCalls_concat, searches]
        exact prepended
  · obtain ⟨nodes, search⟩ := kept next effect
    rw [isNone, Option.toList_none, List.map_nil, List.append_nil, Settings.Searches, nodes, search]
    exact searches

/-- An item faults when its call dereferences a null tail. -/
theorem effect_faults {conf : Config} {settings : Settings} {item : Item} {report : Report}
    {calls : List PathCall} (searches : settings.Searches conf calls)
    (effect : item.effect conf settings = .inr report)
    (fault : report.halt = some (.stop .fault)) :
    ∃ path, item.withPath? = some path ∧
      runCalls ([], newSearch conf.delim) (calls ++ [.prepend path]) = none := by
  rcases item.withPath_cases conf settings with ⟨path, isPath, same⟩ | ⟨_, _, noFault⟩
  · refine ⟨path, isPath, ?_⟩
    rw [same, Settings.apply] at effect
    cases prepended : prependPath settings.nodes settings.search path with
    | some dirs =>
        rw [prepended] at effect
        cases effect
    | none =>
        rw [Settings.Searches] at searches
        rw [runCalls_concat, searches]
        exact prepended
  · exact absurd fault (noFault report effect)

/-- The settings that a command line leads to have the search list of its calls. -/
theorem followItems_searches {conf : Config} {items : List Item} {settings : Settings}
    (followed : followItems conf (startSettings conf) items = .inl settings) :
    settings.Searches conf (pathCalls conf items) := by
  refine followItems_invariant (fun items settings => settings.Searches conf (pathCalls conf items))
    (startSettings_searches conf) ?_ followed
  intro before item settings next searches effect
  have single : [item].filterMap Item.withPath? = item.withPath?.toList := by
    cases found : item.withPath? <;> simp [found]
  rw [pathCalls_append, single]
  exact effect_searches searches effect

/-- The directories of the latest path come first, and those of the environment come last. -/
def commandDirs (conf : Config) (items : List Item) : List S8 :=
  (items.filterMap Item.withPath?).reverse.flatMap (components · conf.delim) ++
    components (conf.envPath.getD []) conf.delim ++ components (conf.fixedPath.getD []) conf.delim

/-- The calls of a command line lead to its directories. -/
theorem searchDirs_pathCalls (conf : Config) (items : List Item) :
    searchDirs conf.delim (pathCalls conf items) = commandDirs conf items := by
  have prepends : ∀ (paths dirs : List S8),
      (paths.map PathCall.prepend).foldl (PathCall.extend conf.delim) dirs =
        paths.reverse.flatMap (components · conf.delim) ++ dirs := by
    intro paths
    induction paths with
    | nil => exact fun _ => rfl
    | cons path paths ih =>
        intro dirs
        rw [List.map_cons, List.foldl_cons, ih]
        simp [PathCall.extend]
  rw [searchDirs, pathCalls, List.foldl_append, prepends, commandDirs, List.append_assoc]
  rfl

/-- The settings search the directories of the command line. -/
theorem followItems_dirs {conf : Config} {items : List Item} {settings : Settings}
    (followed : followItems conf (startSettings conf) items = .inl settings) :
    settings.dirs = commandDirs conf items := by
  have searches := followItems_searches followed
  rcases runCalls_outcome [] conf.delim (pathCalls conf items) with
    ⟨_, state, run, _, cells, isList, dirs⟩ | ⟨_, fails⟩
  · rw [Settings.Searches, run] at searches
    cases searches
    rw [← searchDirs_pathCalls, ← dirs]
    exact isList.walk_eq
  · rw [Settings.Searches, fails] at searches
    cases searches

/-- After every command line the directories of the paths given with it are searched first, those
of the latest path before those of the earlier ones, and the directories of the environment and
the default ones come behind them. -/
theorem commandLine_dirs {args : List S8} {items : List Item} (spells : Spells args items)
    (conf : Config) (fuel : Nat) (settings : Settings)
    (read : readOptions fuel (conf.withArgs args) = some (.inl settings)) :
    settings.dirs = commandDirs conf items :=
  followItems_dirs ((readOptions_iff spells).mp ⟨fuel, read⟩).symm

/-- The later path stands before the earlier one. -/
theorem commandLine_dirs_two : ∃ settings,
    readOptions 4 (plainConfig.withArgs [S "--with-path=p:q", S "x", S "--with-path", S "r"]) =
      some (.inl settings) ∧ settings.dirs = [S "r", S "p", S "q", S "d"] := by
  have needs : needsValue (S "-with-path") = true := by decide +kernel
  have behind : Spells [S "x", S "--with-path", S "r"]
      [.operand (S "x"), .option (S "-with-path") (some (S "r"))] :=
    .operand (by decide) (.detached (S "r") (by decide) needs .nil)
  have spells : Spells [S "--with-path=p:q", S "x", S "--with-path", S "r"]
      [.option (S "-with-path") (some (S "p:q")), .operand (S "x"),
        .option (S "-with-path") (some (S "r"))] :=
    @Spells.attached (S "-with-path") (S "p:q") _ _ (by decide) behind
  have accepted : ((readOptions 4 (plainConfig.withArgs
      [S "--with-path=p:q", S "x", S "--with-path", S "r"])).bind
        Sum.getLeft?).isSome = true := by decide +kernel
  obtain ⟨settings, read⟩ := exists_settings accepted
  refine ⟨settings, read, ?_⟩
  rw [commandLine_dirs spells plainConfig 4 settings read]
  decide +kernel

end UConfig
