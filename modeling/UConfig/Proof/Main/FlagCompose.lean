/-
This file proves that a run for all flags prints what a run for each kind of flags prints.
-/

import UConfig.Proof.Main.FlagQueries
import UConfig.Proof.Main.Returns

namespace UConfig

/-- The options that ask for flags of the compiler, with their filters. -/
def compilerOptions : List (OptionName × Filter) :=
  [(.cflags, .any), (.cflagsOnlyI, .I), (.cflagsOnlyOther, .otherC)]

/-- The options that ask for flags of the linker, with their filters. -/
def linkerOptions : List (OptionName × Filter) :=
  [(.libs, .any), (.libsOnlyL, .L), (.libsOnlyl, .l), (.libsOnlyOther, .otherL)]

namespace Settings

/-- A change of the flags that are asked for. -/
def reflag (cflags : Bool → Bool) (filterC : Filter → Filter) (libs : Bool → Bool)
    (filterL : Filter → Filter) (settings : Settings) : Settings :=
  { settings with
    cflags := cflags settings.cflags
    filterC := filterC settings.filterC
    libs := libs settings.libs
    filterL := filterL settings.filterL }

def askCompiler (f : Filter) : Settings → Settings := reflag (fun _ => true) (fun _ => f) id id

def askLinker (f : Filter) : Settings → Settings := reflag id id (fun _ => true) (fun _ => f)

/-- The other options have the same effect before and after such a change. -/
theorem apply_reflag (cflags : Bool → Bool) (filterC : Filter → Filter) (libs : Bool → Bool)
    (filterL : Filter → Filter) (conf : Config) (settings : Settings) {option : OptionName}
    (other : option ∉ argOptions) (value : S8) :
    (settings.reflag cflags filterC libs filterL).apply conf option value =
      (settings.apply conf option value).map (reflag cflags filterC libs filterL) id := by
  cases option with
  | withPath =>
      simp only [apply, reflag]
      cases prependPath settings.nodes settings.search value <;> rfl
  | defineVariable =>
      simp only [apply, reflag]
      split <;> rfl
  | listAll | listPackageNames =>
      simp only [apply, list, reflag]
      split <;> rfl
  | cflags | cflagsOnlyI | cflagsOnlyOther | libs | libsOnlyL | libsOnlyl | libsOnlyOther =>
      exact absurd (by decide) other
  | _ => rfl

end Settings

/-- Items that ask for no flags ignore such a change. -/
theorem Item.ignores_reflag (cflags : Bool → Bool) (filterC : Filter → Filter)
    (libs : Bool → Bool) (filterL : Filter → Filter) {item : Item}
    (other : ∀ option ∈ argOptions, item.known? ≠ some option) :
    item.Ignores (Settings.reflag cflags filterC libs filterL) := by
  intro conf settings
  cases item with
  | operand arg | missing name => rfl
  | option name value =>
      simp only [effect]
      cases found : optionByName name with
      | none => rfl
      | some known =>
          have notFlag : known ∉ argOptions := fun member => other known member found
          exact Settings.apply_reflag _ _ _ _ conf settings notFlag _

/-- A change of the flags does not change what is loaded. -/
theorem loads_reflag {platform : Platform} {settings : Settings} {outcome : Except Stop Pkgs}
    (loads : Loads (settings.processor platform) settings.args outcome)
    (cflags : Bool → Bool) (filterC : Filter → Filter) (libs : Bool → Bool)
    (filterL : Filter → Filter) :
    Loads ((settings.reflag cflags filterC libs filterL).processor platform)
      (settings.reflag cflags filterC libs filterL).args outcome :=
  loads

/-- An option of the compiler asks for its flags. -/
theorem effect_compiler {option : OptionName} {f : Filter} (isC : (option, f) ∈ compilerOptions)
    (value : Option S8) (conf : Config) (settings : Settings) :
    (Item.option option.label value).effect conf settings = .inl (settings.askCompiler f) := by
  rw [Item.effect, optionByName_label]
  simp only [compilerOptions, List.mem_cons, Prod.mk.injEq, List.not_mem_nil, or_false] at isC
  rcases isC with ⟨rfl, rfl⟩ | ⟨rfl, rfl⟩ | ⟨rfl, rfl⟩ <;> rfl

/-- Asking for compiler flags has the same effect before and after asking for linker flags. -/
theorem compiler_ignores {option : OptionName} {f : Filter} (isC : (option, f) ∈ compilerOptions)
    (value : Option S8) (g : Filter) :
    (Item.option option.label value).Ignores (Settings.askLinker g) := by
  intro conf settings
  rw [effect_compiler isC, effect_compiler isC]
  rfl

/-- An option of the linker asks for its flags. -/
theorem effect_linker {option : OptionName} {f : Filter} (isL : (option, f) ∈ linkerOptions)
    (value : Option S8) (conf : Config) (settings : Settings) :
    (Item.option option.label value).effect conf settings = .inl (settings.askLinker f) := by
  rw [Item.effect, optionByName_label]
  simp only [linkerOptions, List.mem_cons, Prod.mk.injEq, List.not_mem_nil, or_false] at isL
  rcases isL with ⟨rfl, rfl⟩ | ⟨rfl, rfl⟩ | ⟨rfl, rfl⟩ | ⟨rfl, rfl⟩ <;> rfl

/-- The exit of a run for flags in terms of what its operands load. -/
theorem concludes_flags {platform : Platform} {conf : Config} {settings : Settings}
    (prints : settings.PrintsFlags) {exit : Exit}
    (concludes : Concludes platform conf (.ok exit) (.inl settings)) {outcome : Except Stop Pkgs}
    (loads : Loads (settings.processor platform) settings.args outcome) (text : S8) :
    (exit.success = true ∧ exit.stdout.flatten = text) ↔
      processReport conf settings outcome = ⟨text, none⟩ := by
  obtain ⟨report, reports, leaves⟩ := concludes
  obtain ⟨outcome', loads', rfl⟩ := (reports_iff prints.listing).mp reports
  cases loads.unique loads'
  have shows := leaves.shows
  rw [shows.success, shows.stdout]
  generalize processReport conf settings outcome = report
  obtain ⟨written, halt⟩ := report
  cases halt with
  | none => simp [Report.stdout]
  | some halt => simp

/-- The two kinds of flags on one line. -/
theorem line_both (format : ArgFormat) (compiler linker : List S8) :
    ∃ separator, format.line (compiler ++ linker) =
        format.line compiler ++ separator ++ format.line linker ∧
      (separator = [format.separator] ∨
        separator = [] ∧ (format.line compiler = [] ∨ format.line linker = [])) := by
  by_cases none : compiler = []
  · exact ⟨[], by rw [none]; rfl, .inr ⟨rfl, .inl (by rw [none]; rfl)⟩⟩
  · by_cases none' : linker = []
    · exact ⟨[], by simp [none', ArgFormat.line], .inr ⟨rfl, .inr (by rw [none']; rfl)⟩⟩
    · exact ⟨[format.separator], by rw [format.line_append none none']; simp, .inl rfl⟩

namespace Settings.PrintsNothing

variable {settings : Settings} (prints : settings.PrintsNothing) (f g : Filter)
  {conf : Config} {outcome : Except Stop Pkgs} {text : S8}
include prints

/-- Settings that print nothing print flags once the compiler's are asked for. -/
theorem askCompiler : (settings.askCompiler f).PrintsFlags :=
  ⟨prints.listing, prints.noVariable, prints.noVersions⟩

/-- The same holds of the linker's flags. -/
theorem askLinker : (settings.askLinker g).PrintsFlags :=
  ⟨prints.listing, prints.noVariable, prints.noVersions⟩

/-- The same holds of both kinds. -/
theorem askBoth : ((settings.askCompiler f).askLinker g).PrintsFlags :=
  ⟨prints.listing, prints.noVariable, prints.noVersions⟩

/-- The report of compiler flags has no linker flags. -/
theorem askCompiler_iff : processReport conf (settings.askCompiler f) outcome = ⟨text, none⟩ ↔
    ∃ pkgs compiler, outcome = .ok pkgs ∧ pkgs.count ≠ 0 ∧
      checkOverrides settings pkgs.packages = .ok () ∧
      (settings.askCompiler f).compilerArgs conf pkgs.packages = .ok compiler ∧
      text = settings.format.line compiler ++ S "\n" := by
  have noLinker : ∀ packages, (settings.askCompiler f).linkerArgs conf packages = .ok [] :=
    fun _ => if_neg (by simpa [Settings.askCompiler, reflag] using prints.noLibs)
  have lineEnd : (settings.askCompiler f).lineEnd = S "\n" := rfl
  rw [(prints.askCompiler f).processReport_iff]
  constructor
  · rintro ⟨pkgs, compiler, linker, loaded, filled, checked, isCompiler, isLinker, text⟩
    rw [noLinker] at isLinker
    cases isLinker
    rw [List.append_nil, lineEnd] at text
    exact ⟨pkgs, compiler, loaded, filled, checked, isCompiler, text⟩
  · rintro ⟨pkgs, compiler, loaded, filled, checked, isCompiler, text⟩
    refine ⟨pkgs, compiler, [], loaded, filled, checked, isCompiler, noLinker _, ?_⟩
    rw [List.append_nil, lineEnd]
    exact text

/-- The report of linker flags has no compiler flags. -/
theorem askLinker_iff : processReport conf (settings.askLinker g) outcome = ⟨text, none⟩ ↔
    ∃ pkgs linker, outcome = .ok pkgs ∧ pkgs.count ≠ 0 ∧
      checkOverrides settings pkgs.packages = .ok () ∧
      (settings.askLinker g).linkerArgs conf pkgs.packages = .ok linker ∧
      text = settings.format.line linker ++ S "\n" := by
  have noCompiler : ∀ packages, (settings.askLinker g).compilerArgs conf packages = .ok [] :=
    fun _ => if_neg (by simpa [Settings.askLinker, reflag] using prints.noCflags)
  have lineEnd : (settings.askLinker g).lineEnd = S "\n" := by
    rw [Settings.lineEnd]
    exact if_pos (Bool.or_true _)
  rw [(prints.askLinker g).processReport_iff]
  constructor
  · rintro ⟨pkgs, compiler, linker, loaded, filled, checked, isCompiler, isLinker, text⟩
    rw [noCompiler] at isCompiler
    cases isCompiler
    rw [List.nil_append, lineEnd] at text
    exact ⟨pkgs, linker, loaded, filled, checked, isLinker, text⟩
  · rintro ⟨pkgs, linker, loaded, filled, checked, isLinker, text⟩
    refine ⟨pkgs, [], linker, loaded, filled, checked, noCompiler _, isLinker, ?_⟩
    rw [List.nil_append, lineEnd]
    exact text

/-- The report of both kinds of flags has the line of the one and the line of the other. -/
theorem lines (both : processReport conf ((settings.askCompiler f).askLinker g) outcome =
    ⟨text, none⟩) :
    ∃ lineC lineL separator,
      processReport conf (settings.askCompiler f) outcome = ⟨lineC ++ S "\n", none⟩ ∧
      processReport conf (settings.askLinker g) outcome = ⟨lineL ++ S "\n", none⟩ ∧
      text = lineC ++ separator ++ lineL ++ S "\n" ∧
      (separator = [settings.format.separator] ∨
        separator = [] ∧ (lineC = [] ∨ lineL = [])) := by
  obtain ⟨pkgs, compiler, linker, loaded, filled, checked, isCompiler, isLinker, isText⟩ :=
    (prints.askBoth f g).processReport_iff.mp both
  obtain ⟨separator, whole, isSeparator⟩ := line_both settings.format compiler linker
  refine ⟨_, _, separator, ?_, ?_, ?_, isSeparator⟩
  · exact (prints.askCompiler_iff f).mpr ⟨pkgs, compiler, loaded, filled, checked, isCompiler, rfl⟩
  · exact (prints.askLinker_iff g).mpr ⟨pkgs, linker, loaded, filled, checked, isLinker, rfl⟩
  · rw [isText, ← whole]
    rfl

/-- When either kind of flags can be reported, both kinds can. -/
theorem join {textC textL : S8}
    (first : processReport conf (settings.askCompiler f) outcome = ⟨textC, none⟩)
    (second : processReport conf (settings.askLinker g) outcome = ⟨textL, none⟩) :
    ∃ text, processReport conf ((settings.askCompiler f).askLinker g) outcome = ⟨text, none⟩ := by
  obtain ⟨pkgs, compiler, loaded, filled, checked, isCompiler, _⟩ :=
    (prints.askCompiler_iff f).mp first
  obtain ⟨pkgs', linker, loaded', _, _, isLinker, _⟩ := (prints.askLinker_iff g).mp second
  rw [loaded] at loaded'
  cases loaded'
  exact ⟨_, (prints.askBoth f g).processReport_iff.mpr
    ⟨pkgs, compiler, linker, loaded, filled, checked, isCompiler, isLinker, rfl⟩⟩

end Settings.PrintsNothing

/-- The items with one more item somewhere between them. -/
def Inserts (item : Item) (items items' : List Item) : Prop :=
  ∃ before after, items = before ++ after ∧ items' = before ++ item :: after

/-- The place of an item does not matter when the others ignore what it changes. -/
theorem Inserts.follow {conf : Config} {change : Settings → Settings} {item : Item}
    {items items' : List Item} (inserts : Inserts item items items')
    (acts : ∀ settings, item.effect conf settings = .inl (change settings))
    (ignored : ∀ other ∈ items, other.Ignores change) (settings : Settings) :
    followItems conf settings items' = (followItems conf settings items).map change id := by
  obtain ⟨before, after, rfl, rfl⟩ := inserts
  exact followItems_insert acts
    (fun other member => ignored other (List.mem_append_right _ member)) settings before

/-- Nothing else has been inserted. -/
theorem Inserts.mem {item other : Item} {items items' : List Item}
    (inserts : Inserts item items items') (member : other ∈ items') :
    other = item ∨ other ∈ items := by
  obtain ⟨before, after, rfl, rfl⟩ := inserts
  simpa [or_left_comm] using member

/-- Command lines without questions print nothing before their options for flags are added. -/
theorem printsNothing_of_items {conf : Config} {items : List Item} {settings : Settings}
    (followed : followItems conf (startSettings conf) items = .inl settings)
    (only : ∀ item ∈ items, ∀ other ∈ .modversion :: answerOptions, item.known? ≠ some other) :
    settings.PrintsNothing := by
  have plain : settings.answers = (.none, none, false, false) :=
    answers_changedBy.follow followed fun item member other isAnswer =>
      only item member other (List.mem_cons_of_mem _ isAnswer)
  have noVersions : settings.modversion = false :=
    modversion_changedBy.follow followed fun item member other isOther => by
      rw [List.mem_singleton.mp isOther]
      exact only item member .modversion List.mem_cons_self
  simp only [Settings.answers, Prod.mk.injEq] at plain
  obtain ⟨listing, noVariable, noCflags, noLibs⟩ := plain
  exact ⟨⟨listing, noVariable, noVersions⟩, noCflags, noLibs⟩

/-- Three command lines have the same items, of which none asks for an answer. The first adds an
option for compiler flags in some place, the second one for linker flags, and the third adds both
of them, in places and in an order of its own. As long as the memory suffices the third run succeeds
exactly when the first and the second do, and it prints the line of the one and the line of the
other, with a delimiter between them when both have text. -/
theorem flags_compose {args argsC argsL : List S8} {rest items itemsC itemsL : List Item}
    {compiler linker : OptionName} {f g : Filter} {value value' : Option S8}
    (isC : (compiler, f) ∈ compilerOptions) (isL : (linker, g) ∈ linkerOptions)
    (insertsC : Inserts (.option compiler.label value) rest itemsC)
    (insertsL : Inserts (.option linker.label value') rest itemsL)
    (inserts : Inserts (.option linker.label value') itemsC items)
    (spells : Spells args items) (spellsC : Spells argsC itemsC) (spellsL : Spells argsL itemsL)
    (only : ∀ item ∈ rest, ∀ other ∈ .modversion :: answerOptions, item.known? ≠ some other)
    (platform : Platform) (conf : Config) (fuel : Nat) (settings : Settings)
    (read : readOptions fuel (conf.withArgs args) = some (.inl settings))
    (exit exitC exitL : Exit) (finishes : Finishes platform (conf.withArgs args) (.ok exit))
    (finishesC : Finishes platform (conf.withArgs argsC) (.ok exitC))
    (finishesL : Finishes platform (conf.withArgs argsL) (.ok exitL)) :
    (exit.success = true ↔ exitC.success = true ∧ exitL.success = true) ∧
    (exit.success = true → ∃ lineC lineL separator,
      exitC.stdout.flatten = lineC ++ S "\n" ∧ exitL.stdout.flatten = lineL ++ S "\n" ∧
      exit.stdout.flatten = lineC ++ separator ++ lineL ++ S "\n" ∧
      (separator = [settings.format.separator] ∨
        separator = [] ∧ (lineC = [] ∨ lineL = []))) := by
  have ignored : ∀ cflags filterC libs filterL, ∀ item ∈ rest,
      item.Ignores (Settings.reflag cflags filterC libs filterL) := by
    intro _ _ _ _ item member
    exact Item.ignores_reflag _ _ _ _ fun option isFlag =>
      only item member option (List.mem_cons_of_mem _ (List.mem_append_right _ isFlag))
  have ignoredL : ∀ item ∈ itemsC, item.Ignores (Settings.askLinker g) := by
    intro item member
    rcases insertsC.mem member with rfl | member
    · exact compiler_ignores isC value g
    · exact ignored _ _ _ _ item member
  have followC := insertsC.follow (effect_compiler isC value conf) (ignored _ _ _ _)
    (startSettings conf)
  have followL := insertsL.follow (effect_linker isL value' conf) (ignored _ _ _ _)
    (startSettings conf)
  have follow := inserts.follow (effect_linker isL value' conf) ignoredL (startSettings conf)
  have followed := ((readOptions_iff spells).mp ⟨fuel, read⟩).symm
  rw [followC] at follow
  rw [follow] at followed
  rw [finishes_withArgs spells, follow] at finishes
  rw [finishes_withArgs spellsC, followC] at finishesC
  rw [finishes_withArgs spellsL, followL] at finishesL
  cases base : followItems conf (startSettings conf) rest with
  | inr report =>
      rw [base] at followed
      cases followed
  | inl s =>
      rw [base] at followed finishes finishesC finishesL
      cases followed
      have prints := printsNothing_of_items base only
      obtain ⟨_, reports, _⟩ := exists_reports platform conf s
      obtain ⟨outcome, loads, _⟩ := (reports_iff prints.listing).mp reports
      have loadsC := loads_reflag loads (fun _ => true) (fun _ => f) id id
      have loadsL := loads_reflag loads id id (fun _ => true) (fun _ => g)
      have loadsBoth := loads_reflag loadsC id id (fun _ => true) (fun _ => g)
      have shows := concludes_flags (prints.askBoth f g) finishes loadsBoth
      have showsC := concludes_flags (prints.askCompiler f) finishesC loadsC
      have showsL := concludes_flags (prints.askLinker g) finishesL loadsL
      have split : exit.success = true → _ := fun succeeds =>
        prints.lines f g ((shows exit.stdout.flatten).mp ⟨succeeds, rfl⟩)
      refine ⟨⟨fun succeeds => ?_, ?_⟩, fun succeeds => ?_⟩
      · obtain ⟨_, _, _, first, second, _⟩ := split succeeds
        exact ⟨((showsC _).mpr first).1, ((showsL _).mpr second).1⟩
      · rintro ⟨succeedsC, succeedsL⟩
        obtain ⟨text, both⟩ := prints.join f g ((showsC _).mp ⟨succeedsC, rfl⟩)
          ((showsL _).mp ⟨succeedsL, rfl⟩)
        exact ((shows text).mpr both).1
      · obtain ⟨lineC, lineL, separator, first, second, whole, isSeparator⟩ := split succeeds
        exact ⟨lineC, lineL, separator, ((showsC _).mpr first).2, ((showsL _).mpr second).2,
          whole, isSeparator⟩

/-- The linker option stands before the package and the compiler option behind it. -/
theorem flags_compose_chain :
    Finishes chainPlatform (plainConfig.withArgs [S "--libs", S "a", S "--cflags"])
      (.ok ⟨true, [S "-Ia -Ib -la\n"], []⟩) ∧
    ∃ lineC lineL separator, S "-Ia -Ib\n" = lineC ++ S "\n" ∧ S "-la\n" = lineL ++ S "\n" ∧
      S "-Ia -Ib -la\n" = lineC ++ separator ++ lineL ++ S "\n" := by
  have cflags : needsValue (S "-cflags") = false := by decide +kernel
  have libs : needsValue (S "-libs") = false := by decide +kernel
  have flagC : Spells [S "--cflags"] [.option (S "-cflags") none] :=
    .flag (by decide) (by decide) (by decide) cflags .nil
  have spellsC : Spells [S "a", S "--cflags"] [.operand (S "a"), .option (S "-cflags") none] :=
    .operand (by decide) flagC
  have spellsL : Spells [S "--libs", S "a"] [.option (S "-libs") none, .operand (S "a")] :=
    .flag (by decide) (by decide) (by decide) libs (.operand (by decide) .nil)
  have spells : Spells [S "--libs", S "a", S "--cflags"]
      [.option (S "-libs") none, .operand (S "a"), .option (S "-cflags") none] :=
    .flag (by decide) (by decide) (by decide) libs spellsC
  have exits : exitOf (uconfig 90 chainPlatform
        (plainConfig.withArgs [S "--libs", S "a", S "--cflags"])) =
          some ⟨true, [S "-Ia -Ib -la\n"], []⟩ ∧
      exitOf (uconfig 90 chainPlatform (plainConfig.withArgs [S "a", S "--cflags"])) =
        some ⟨true, [S "-Ia -Ib\n"], []⟩ ∧
      exitOf (uconfig 90 chainPlatform (plainConfig.withArgs [S "--libs", S "a"])) =
        some ⟨true, [S "-la\n"], []⟩ := by
    delta uconfig runSettings process processBody processTurn visit visitNew loadPkg expandMerge
      mergeField expandField
    rw [expand_eq_recursive]
    decide +kernel
  have accepted : ((readOptions 4 (plainConfig.withArgs
      [S "--libs", S "a", S "--cflags"])).bind Sum.getLeft?).isSome = true := by decide +kernel
  obtain ⟨settings, read⟩ := exists_settings accepted
  have finishes := finishes_of_exit exits.1
  have composed := @flags_compose _ _ _ [.operand (S "a")] _ _ _ .cflags .libs .any .any none none
    (by decide) (by decide) ⟨[.operand (S "a")], [], rfl, rfl⟩ ⟨[], [.operand (S "a")], rfl, rfl⟩
    ⟨[], [.operand (S "a"), .option (S "-cflags") none], rfl, rfl⟩ spells spellsC spellsL
    (by decide +kernel) chainPlatform plainConfig 4 settings read _ _ _ finishes
    (finishes_of_exit exits.2.1) (finishes_of_exit exits.2.2)
  obtain ⟨lineC, lineL, separator, isC, isL, whole, _⟩ := composed.2 rfl
  exact ⟨finishes, lineC, lineL, separator, isC, isL, whole⟩

end UConfig
