/-
This file proves which variables are known everywhere after any command line.
-/

import UConfig.Proof.Options.Frame

namespace UConfig

/-- The variable that an item defines. -/
def Item.definition? : Item → Option (S8 × Option S8)
  | option name value =>
      if optionByName name = some .defineVariable then
        some ((s8Cut (value.getD []) '='.toUInt8).head,
          some (s8Cut (value.getD []) '='.toUInt8).tail)
      else none
  | operand _ | missing _ => none

/-- The variables that every run starts with. -/
def builtins (conf : Config) : List (S8 × Option S8) :=
  [(S "pc_top_builddir", some (match conf.topBuildDir with
      | some dir => s8PathEncode dir
      | none => S "$(top_builddir)")),
    (S "pc_sysrootdir", some (S "/")), (S "pc_system_libdirs", conf.pcSysLibPath),
    (S "pc_system_includedirs", conf.pcSysIncPath), (S "pc_path", conf.pcPath)]

/-- The latest definition of a variable comes first. -/
def commandVariables (conf : Config) (items : List Item) : List (S8 × Option S8) :=
  (items.filterMap Item.definition?).reverse ++ builtins conf

/-- The environment holds what a list of definitions says. -/
def Env.Holds (global : Env) (bindings : List (S8 × Option S8)) : Prop :=
  ∀ name, global.find name = bindings.lookup name

/-- An assignment is the latest definition. -/
theorem Env.Holds.assign {global : Env} {bindings : List (S8 × Option S8)}
    (holds : global.Holds bindings) (name : S8) (value : Option S8) :
    (global.assign name value).Holds ((name, value) :: bindings) := by
  intro other
  rw [find_assign, List.lookup_cons]
  by_cases same : other = name
  · rw [if_pos same, same, beq_self_eq_true]
  · rw [if_neg same, beq_eq_false_iff_ne.mpr same]
    exact holds other

/-- The first settings hold the definitions of the configuration. -/
theorem startGlobal_holds (conf : Config) : (startGlobal conf).Holds (builtins conf) := by
  have empty : Env.empty.Holds [] := fun name => rfl
  exact ((((empty.assign _ _).assign _ _).assign _ _).assign _ _).assign _ _

/-- The other options define no variable. -/
theorem apply_global {conf : Config} {settings next : Settings} {option : OptionName} {value : S8}
    (other : option ≠ .defineVariable) (applied : settings.apply conf option value = .inl next) :
    next.global = settings.global := by
  rw [Settings.apply_update applied]
  cases option with
  | defineVariable => exact absurd rfl other
  | withPath | listAll | listPackageNames => simp
  | _ => rfl

/-- Each item adds its own definition. -/
theorem effect_holds {conf : Config} {settings next : Settings} {item : Item}
    {bindings : List (S8 × Option S8)} (holds : settings.global.Holds bindings)
    (effect : item.effect conf settings = .inl next) :
    next.global.Holds (item.definition?.toList ++ bindings) := by
  cases item with
  | operand arg =>
      cases effect
      exact holds
  | missing name => cases effect
  | option name value =>
      rw [Item.effect] at effect
      cases found : optionByName name with
      | none =>
          rw [found] at effect
          cases effect
      | some known =>
          rw [found] at effect
          by_cases defines : known = .defineVariable
          · subst defines
            rw [Item.definition?, if_pos found]
            simp only [Settings.apply] at effect
            split at effect <;> cases effect
            exact holds.assign _ _
          · rw [Item.definition?, if_neg (by rw [found]; simpa using defines),
              apply_global defines effect]
            exact holds

/-- In every package a variable has the value of its latest definition on the command line. If
there is none, it has the value that it is built in with, and otherwise the one of the package. -/
theorem commandLine_variables {args : List S8} {items : List Item} (spells : Spells args items)
    (conf : Config) (fuel : Nat) (settings : Settings)
    (read : readOptions fuel (conf.withArgs args) = some (.inl settings)) (env : Env) (name : S8) :
    lookup settings.global env name =
      match (commandVariables conf items).lookup name with
      | some value => value
      | none => (env.find name).getD none := by
  have followed := ((readOptions_iff spells).mp ⟨fuel, read⟩).symm
  have holds : settings.global.Holds (commandVariables conf items) := by
    refine followItems_invariant (fun items settings =>
      settings.global.Holds (commandVariables conf items)) (startGlobal_holds conf) ?_ followed
    intro before item settings next holds effect
    have single : [item].filterMap Item.definition? = item.definition?.toList := by
      cases found : item.definition? <;> simp [found]
    have last : commandVariables conf (before ++ [item]) =
        item.definition?.toList ++ commandVariables conf before := by
      rw [commandVariables, List.filterMap_append, List.reverse_append, single,
        List.append_assoc]
      cases item.definition? <;> rfl
    rw [last]
    exact effect_holds holds effect
  have found : lookup settings.global env name = (match settings.global.find name with
      | some value => value
      | none => (env.find name).getD none) := rfl
  rw [found, holds name]

/-- The later definition counts, with the sign in its value. -/
theorem commandLine_variables_prefix : ∃ settings,
    readOptions 3 (plainConfig.withArgs
      [S "--define-variable=prefix=/a", S "--define-variable", S "prefix=/b=c"]) =
        some (.inl settings) ∧
    lookup settings.global (Env.empty.assign (S "prefix") (some (S "/usr"))) (S "prefix") =
      some (S "/b=c") := by
  have needs : needsValue (S "-define-variable") = true := by decide +kernel
  have spells : Spells [S "--define-variable=prefix=/a", S "--define-variable", S "prefix=/b=c"]
      [.option (S "-define-variable") (some (S "prefix=/a")),
        .option (S "-define-variable") (some (S "prefix=/b=c"))] :=
    @Spells.attached (S "-define-variable") (S "prefix=/a") _ _ (by decide)
      (.detached (S "prefix=/b=c") (by decide) needs .nil)
  have accepted : ((readOptions 3 (plainConfig.withArgs
      [S "--define-variable=prefix=/a", S "--define-variable", S "prefix=/b=c"])).bind
        Sum.getLeft?).isSome = true := by decide +kernel
  obtain ⟨settings, read⟩ := exists_settings accepted
  refine ⟨settings, read, ?_⟩
  rw [commandLine_variables spells plainConfig 3 settings read]
  decide +kernel

end UConfig
