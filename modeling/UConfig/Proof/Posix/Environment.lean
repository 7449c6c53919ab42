/-
This file compares the environments that the two platforms read.
-/

import UConfig.Program.Linux

namespace UConfig

/-- No variable has the name of another one. -/
theorem envVarByName_iff {name : S8} {var : EnvVar} :
    envVarByName name = some var ↔ name = var.label := by
  constructor
  · intro found
    have same := List.find?_some found
    exact (beq_iff_eq.mp same).symm
  · rintro rfl
    cases var <;> decide

/-- The configuration for the values of the variables. -/
def configWith (builtin : Builtin) (argv : List S8) (value : EnvVar → Option S8) : Config where
  args := argv.drop 1
  pcPath := some builtin.pcPath
  pcSysIncPath := some builtin.sysIncPath
  pcSysLibPath := some builtin.sysLibPath
  envPath := value .path
  fixedPath := (value .libDir).or (some builtin.pcPath)
  topBuildDir := value .topBuildDir
  sysIncPath := (value .systemIncludePath).or (some builtin.sysIncPath)
  sysLibPath := (value .systemLibraryPath).or (some builtin.sysLibPath)
  printSysInc := value .allowSystemCflags
  printSysLib := value .allowSystemLibs
  definePrefix := false
  hasListing := true
  delim := ':'.toUInt8

/-- An entry is a definition of the variable. -/
def defines (var : EnvVar) (entry : S8) : Bool := (s8Cut entry '='.toUInt8).head == var.label

/-- An entry defines the variable of its name. -/
theorem defines_iff {var : EnvVar} {entry : S8} : defines var entry = true ↔
    envVarByName (s8Cut entry '='.toUInt8).head = some var := by
  rw [envVarByName_iff, defines, beq_iff_eq]

def definedValue (entry : S8) : S8 := (s8Cut entry '='.toUInt8).tail

/-- The POSIX configuration looks every variable up. -/
theorem posixConfig_eq (builtin : Builtin) (argv environ : List S8) :
    posixConfig builtin argv environ =
      configWith builtin argv fun var => s8GetEnv environ var.label := rfl

/-- The first entry that defines the variable and has a value counts. -/
theorem s8GetEnv_eq (environ : List S8) (var : EnvVar) : s8GetEnv environ var.label =
    (environ.find? fun entry => (s8Cut entry '='.toUInt8).ok && defines var entry).map
      definedValue := by
  induction environ with
  | nil => rfl
  | cons entry environ ih =>
      rw [s8GetEnv] at ih
      rw [s8GetEnv, List.findSome?_cons, List.find?_cons, ih]
      cases counts : (s8Cut entry '='.toUInt8).ok && defines var entry with
      | true => simp only [defines] at counts; simp [counts, definedValue]
      | false => simp only [defines] at counts; simp [counts]

/-- Setting a variable is an update. -/
theorem setVar_configWith (builtin : Builtin) (argv : List S8) (value : EnvVar → Option S8)
    (var : EnvVar) (text : S8) : (configWith builtin argv value).setVar var text =
      configWith builtin argv (Function.update value var (some text)) := by
  cases var <;> simp [configWith, Config.setVar, Function.update]

/-- The last entry that defines the variable counts, whether it has a value or not. -/
theorem linuxConfig_eq (builtin : Builtin) (argv environ : List S8) :
    linuxConfig builtin argv environ = configWith builtin argv fun var =>
      (environ.reverse.find? (defines var)).map definedValue := by
  induction environ using List.reverseRecOn with
  | nil => rfl
  | append_singleton environ entry ih =>
      have step : linuxConfig builtin argv (environ ++ [entry]) =
          linuxEntry (linuxConfig builtin argv environ) entry := List.foldl_concat _ _ _ _
      rw [step, ih, linuxEntry]
      simp only [List.reverse_concat, List.find?_cons]
      cases found : envVarByName (s8Cut entry '='.toUInt8).head with
      | none =>
          have other : ∀ var, defines var entry = false := by
            intro var
            rw [Bool.eq_false_iff, ne_eq, defines_iff, found]
            exact Option.some_ne_none var |>.symm
          simp only [other]
      | some var =>
          dsimp only
          rw [setVar_configWith]
          congr 1
          funext other
          by_cases same : other = var
          · subst same
            rw [Function.update_self, defines_iff.mpr found]
            rfl
          · have isNot : defines other entry = false := by
              rw [Bool.eq_false_iff, ne_eq, defines_iff, found]
              exact fun isIt => same (Option.some.inj isIt).symm
            rw [Function.update_of_ne same, isNot]

/-- No variable is defined twice, and each definition has a value. -/
structure PlainEnviron (environ : List S8) : Prop where
  single : ∀ var, (environ.filter (defines var)).length ≤ 1
  valued : ∀ entry ∈ environ, ∀ var, defines var entry = true →
    (s8Cut entry '='.toUInt8).ok = true

/-- In a list with one candidate the first is the last one. -/
theorem find?_reverse_of_single {α : Type} {environ : List α} {p : α → Bool}
    (single : (environ.filter p).length ≤ 1) : environ.reverse.find? p = environ.find? p := by
  rw [← List.head?_filter, ← List.head?_filter, List.filter_reverse]
  cases only : environ.filter p with
  | nil => rfl
  | cons entry rest =>
      rw [only, List.length_cons] at single
      have empty : rest = [] := List.length_eq_zero_iff.mp (by omega)
      rw [empty]
      rfl

/-- In a plain environment both platforms have the same configuration. -/
theorem PlainEnviron.config_eq {environ : List S8} (plain : PlainEnviron environ)
    (builtin : Builtin) (argv : List S8) :
    linuxConfig builtin argv environ = posixConfig builtin argv environ := by
  rw [linuxConfig_eq, posixConfig_eq]
  congr 1
  funext var
  rw [s8GetEnv_eq, find?_reverse_of_single (plain.single var)]
  congr 1
  rw [← List.head?_filter, ← List.head?_filter]
  congr 1
  refine List.filter_congr fun entry member => ?_
  cases isIt : defines var entry with
  | false => rw [Bool.and_false]
  | true => rw [plain.valued entry member var isIt, Bool.and_true]

end UConfig
