/-
This file gives the command line options, the settings that they change and the loop over them.
-/

import UConfig.Program.FindPackage
import UConfig.Program.SearchPath
import UConfig.Program.Process

namespace UConfig

/-- The failures of the main function itself. -/
inductive UsageError where
  | argumentMissing (option : S8)
  | valueMissing (definition : S8)
  | unimplemented (option : S8)
  | unknownOption (option : S8)
  | noPackageName

/-- An option is given without its first dash. -/
def UsageError.message (error : UsageError) : S8 :=
  S "pkg-config: " ++ (match error with
    | argumentMissing option => S "argument missing for -" ++ option
    | valueMissing definition =>
        S "value missing in --define-variable for '" ++ definition ++ S "'"
    | unimplemented option => S "-" ++ option ++ S " is unimplemented"
    | unknownOption option => S "unknown option -" ++ option
    | noPackageName => S "requires at least one package name") ++ S "\n"

inductive Halt where
  | usage (error : UsageError)
  | stop (stop : Stop)

/-- What the main function prints to its output until it returns or halts. -/
structure Report where
  written : S8
  halt : Option Halt

/-- The configuration that the platform fills in, where a missing variable is a null string. -/
structure Config where
  args : List S8
  pcPath : Option S8
  pcSysIncPath : Option S8
  pcSysLibPath : Option S8
  envPath : Option S8
  fixedPath : Option S8
  topBuildDir : Option S8
  sysIncPath : Option S8
  sysLibPath : Option S8
  printSysInc : Option S8
  printSysLib : Option S8
  definePrefix : Bool
  hasListing : Bool
  delim : UInt8

/-- The arguments from the index on. -/
structure Options where
  args : List S8
  dashdash : Bool

def newOptions (args : List S8) : Options := ⟨args, false⟩

structure OptResult where
  arg : S8
  value : Option S8
  isOption : Bool

/-- The result is none when all arguments have been used. -/
def nextArg (dashdash : Bool) : List S8 → Option (OptResult × Options)
  | [] => none
  | arg :: args =>
      if dashdash || decide (arg.length < 2) || arg.head? != some '-'.toUInt8 then
        some (⟨arg, none, false⟩, ⟨args, dashdash⟩)
      else if arg = S "--" then nextArg true args
      else
        let arg := arg.drop 1
        let c := s8Cut arg '='.toUInt8
        if c.ok then some (⟨c.head, some c.tail, true⟩, ⟨args, dashdash⟩)
        else some (⟨arg, none, true⟩, ⟨args, dashdash⟩)

def nextOption (p : Options) : Option (OptResult × Options) := nextArg p.dashdash p.args

/-- The argument of an option is the next one, whatever it looks like. -/
def getArgOpt (p : Options) : Option (S8 × Options) :=
  match p.args with
  | [] => none
  | arg :: args => some (arg, { p with args := args })

/-- The options stand in the order of the program's tests. -/
inductive OptionName where
  | h
  | help
  | version
  | modversion
  | definePrefix
  | dontDefinePrefix
  | cflags
  | libs
  | variableName
  | static
  | libsOnlyL
  | libsOnlyl
  | libsOnlyOther
  | cflagsOnlyI
  | cflagsOnlyOther
  | withPath
  | maximumTraverseDepth
  | msvcSyntax
  | defineVariable
  | newlines
  | existence
  | atleastPkgconfigVersion
  | atleastVersion
  | exactVersion
  | maxVersion
  | silenceErrors
  | errorsToStdout
  | printErrors
  | shortErrors
  | uninstalled
  | keepSystemCflags
  | keepSystemLibs
  | validate
  | listAll
  | listPackageNames
  deriving DecidableEq, Repr

namespace OptionName

/-- The text of an option lacks its first dash. -/
def label : OptionName → S8
  | h => S "h"
  | help => S "-help"
  | version => S "-version"
  | modversion => S "-modversion"
  | definePrefix => S "-define-prefix"
  | dontDefinePrefix => S "-dont-define-prefix"
  | cflags => S "-cflags"
  | libs => S "-libs"
  | variableName => S "-variable"
  | static => S "-static"
  | libsOnlyL => S "-libs-only-L"
  | libsOnlyl => S "-libs-only-l"
  | libsOnlyOther => S "-libs-only-other"
  | cflagsOnlyI => S "-cflags-only-I"
  | cflagsOnlyOther => S "-cflags-only-other"
  | withPath => S "-with-path"
  | maximumTraverseDepth => S "-maximum-traverse-depth"
  | msvcSyntax => S "-msvc-syntax"
  | defineVariable => S "-define-variable"
  | newlines => S "-newlines"
  | existence => S "-exists"
  | atleastPkgconfigVersion => S "-atleast-pkgconfig-version"
  | atleastVersion => S "-atleast-version"
  | exactVersion => S "-exact-version"
  | maxVersion => S "-max-version"
  | silenceErrors => S "-silence-errors"
  | errorsToStdout => S "-errors-to-stdout"
  | printErrors => S "-print-errors"
  | shortErrors => S "-short-errors"
  | uninstalled => S "-uninstalled"
  | keepSystemCflags => S "-keep-system-cflags"
  | keepSystemLibs => S "-keep-system-libs"
  | validate => S "-validate"
  | listAll => S "-list-all"
  | listPackageNames => S "-list-package-names"

def all : List OptionName :=
  [h, help, version, modversion, definePrefix, dontDefinePrefix, cflags, libs, variableName,
    static, libsOnlyL, libsOnlyl, libsOnlyOther, cflagsOnlyI, cflagsOnlyOther, withPath,
    maximumTraverseDepth, msvcSyntax, defineVariable, newlines, existence,
    atleastPkgconfigVersion, atleastVersion, exactVersion, maxVersion, silenceErrors,
    errorsToStdout, printErrors, shortErrors, uninstalled, keepSystemCflags, keepSystemLibs,
    validate, listAll, listPackageNames]

/-- The argument of these options is either attached or the next one. -/
def takesValue : OptionName → Bool
  | variableName | withPath | maximumTraverseDepth | defineVariable | atleastPkgconfigVersion
  | atleastVersion | exactVersion | maxVersion => true
  | _ => false

end OptionName

def optionByName (name : S8) : Option OptionName := OptionName.all.find? (·.label == name)

/-- An option is found under its own label. -/
theorem label_of_optionByName {name : S8} {option : OptionName}
    (found : optionByName name = some option) : option.label = name := by
  simpa using List.find?_some found

/-- The table has every option. -/
theorem mem_all (option : OptionName) : option ∈ OptionName.all := by
  cases option <;> decide

/-- No option has the name of another one. -/
theorem labels_nodup : (OptionName.all.map OptionName.label).Nodup := by decide +kernel

/-- Every label leads back to its option. -/
theorem optionByName_label (option : OptionName) : optionByName option.label = some option := by
  cases found : optionByName option.label with
  | none =>
      have absent := List.find?_eq_none.mp found option (mem_all option)
      simp at absent
  | some other =>
      rw [List.inj_on_of_nodup_map labels_nodup (mem_all other) (mem_all option)
        (label_of_optionByName found)]

/-- The kinds of listing, where a run without one loads packages. -/
inductive ListKind where
  | none
  | all
  | names
  deriving DecidableEq, Repr

/-- The local variables of the main function and the members of its processor. -/
structure Settings where
  filterC : Filter
  filterL : Filter
  nodes : Nodes
  search : Search
  global : Env
  maxDepth : Nat
  definePrefix : Bool
  recursive : Bool
  ignoreVersions : Bool
  msvc : Bool
  libs : Bool
  cflags : Bool
  errToStdout : Bool
  silent : Bool
  static : Bool
  argDelim : UInt8
  modversion : Bool
  overrideOp : VersOp
  overrideVersion : Option S8
  printSysInc : Bool
  printSysLib : Bool
  variableName : Option S8
  listing : ListKind
  args : List S8

/-- The variables that every package can refer to. -/
def startGlobal (conf : Config) : Env :=
  let topBuildDir := match conf.topBuildDir with
    | some dir => s8PathEncode dir
    | none => S "$(top_builddir)"
  ((((Env.empty.assign (S "pc_path") conf.pcPath).assign
    (S "pc_system_includedirs") conf.pcSysIncPath).assign
    (S "pc_system_libdirs") conf.pcSysLibPath).assign
    (S "pc_sysrootdir") (some (S "/"))).assign
    (S "pc_top_builddir") (some topBuildDir)

/-- A null path is as empty as a path of length zero. -/
def newProcessorSearch (conf : Config) : Nodes × Search :=
  let env := appendPath [] (newSearch conf.delim) (conf.envPath.getD [])
  appendPath env.1 env.2 (conf.fixedPath.getD [])

def startSettings (conf : Config) : Settings where
  filterC := .any
  filterL := .any
  nodes := (newProcessorSearch conf).1
  search := (newProcessorSearch conf).2
  global := startGlobal conf
  maxDepth := defaultMaxDepth
  definePrefix := conf.definePrefix
  recursive := true
  ignoreVersions := false
  msvc := false
  libs := false
  cflags := false
  errToStdout := false
  silent := false
  static := false
  argDelim := ' '.toUInt8
  modversion := false
  overrideOp := .err
  overrideVersion := none
  printSysInc := conf.printSysInc.isSome
  printSysLib := conf.printSysLib.isSome
  variableName := none
  listing := .none
  args := []

/-- The text that explains the program. -/
def usage : S8 :=
  S "u-config " ++ uConfigVersion ++ S " https://github.com/skeeto/u-config\n" ++
  S "free and unencumbered software released into the public domain\n" ++
  S "usage: pkg-config [OPTIONS...] [PACKAGES...]\n" ++
  S "  --cflags, --cflags-only-I, --cflags-only-other\n" ++
  S "  --define-prefix, --dont-define-prefix\n" ++
  S "  --define-variable=NAME=VALUE, --variable=NAME\n" ++
  S "  --exists, --validate, --\x7batleast,exact,max\x7d-version=VERSION\n" ++
  S "  --errors-to-stdout\n" ++
  S "  --keep-system-cflags, --keep-system-libs\n" ++
  S "  --libs, --libs-only-L, --libs-only-l, --libs-only-other\n" ++
  S "  --list-all\n" ++
  S "  --list-package-names\n" ++
  S "  --maximum-traverse-depth=N\n" ++
  S "  --modversion\n" ++
  S "  --msvc-syntax\n" ++
  S "  --newlines\n" ++
  S "  --silence-errors\n" ++
  S "  --static\n" ++
  S "  --with-path=PATH\n" ++
  S "  -h, --help, --version\n" ++
  S "environment:\n" ++
  S "  PKG_CONFIG_PATH\n" ++
  S "  PKG_CONFIG_LIBDIR\n" ++
  S "  PKG_CONFIG_TOP_BUILD_DIR\n" ++
  S "  PKG_CONFIG_SYSTEM_INCLUDE_PATH\n" ++
  S "  PKG_CONFIG_SYSTEM_LIBRARY_PATH\n" ++
  S "  PKG_CONFIG_ALLOW_SYSTEM_CFLAGS\n" ++
  S "  PKG_CONFIG_ALLOW_SYSTEM_LIBS\n"

/-- Other bytes than digits are passed over, and the highest value is never exceeded. -/
def parseUintFrom (hi : Nat) (v : Nat) : S8 → Nat
  | [] => v
  | c :: s =>
      if digit c then
        let v := v * 10 + (c.toNat - '0'.toNat)
        if v ≥ hi then hi else parseUintFrom hi v s
      else parseUintFrom hi v s

def parseUint (s : S8) (hi : Nat) : Nat := parseUintFrom hi 0 s

/-- An option either changes the settings or ends the program. -/
abbrev OptionEffect := Settings ⊕ Report

def failUsage (error : UsageError) : OptionEffect := .inr ⟨[], some (.usage error)⟩

namespace Settings

/-- The version options check nothing but the named packages. -/
def override (settings : Settings) (op : VersOp) (version : S8) : Settings :=
  { settings with
    overrideOp := op
    overrideVersion := some version
    silent := true
    recursive := false
    ignoreVersions := true }

def list (conf : Config) (settings : Settings) (option : OptionName) (kind : ListKind) :
    OptionEffect :=
  if conf.hasListing then .inl { settings with listing := kind }
  else failUsage (.unimplemented option.label)

/-- The value is only read for the options that take one. -/
def apply (conf : Config) (settings : Settings) (option : OptionName) (value : S8) :
    OptionEffect :=
  match option with
  | .h | .help => .inr ⟨usage, none⟩
  | .version => .inr ⟨uConfigVersion ++ S "\n", none⟩
  | .modversion => .inl { settings with modversion := true, recursive := false }
  | .definePrefix => .inl { settings with definePrefix := true }
  | .dontDefinePrefix => .inl { settings with definePrefix := false }
  | .cflags => .inl { settings with cflags := true, filterC := .any }
  | .libs => .inl { settings with libs := true, filterL := .any }
  | .variableName => .inl { settings with variableName := some value }
  | .static => .inl { settings with static := true }
  | .libsOnlyL => .inl { settings with libs := true, filterL := .L }
  | .libsOnlyl => .inl { settings with libs := true, filterL := .l }
  | .libsOnlyOther => .inl { settings with libs := true, filterL := .otherL }
  | .cflagsOnlyI => .inl { settings with cflags := true, filterC := .I }
  | .cflagsOnlyOther => .inl { settings with cflags := true, filterC := .otherC }
  | .withPath =>
      match prependPath settings.nodes settings.search value with
      | none => .inr ⟨[], some (.stop .fault)⟩
      | some dirs => .inl { settings with nodes := dirs.1, search := dirs.2 }
  | .maximumTraverseDepth => .inl { settings with maxDepth := parseUint value 1000 }
  | .msvcSyntax => .inl { settings with msvc := true }
  | .defineVariable =>
      let c := s8Cut value '='.toUInt8
      if c.ok then .inl { settings with global := settings.global.assign c.head (some c.tail) }
      else failUsage (.valueMissing value)
  | .newlines => .inl { settings with argDelim := '\n'.toUInt8 }
  -- The check already happens, just disable the messages.
  | .existence => .inl { settings with silent := true }
  -- Always succeeds.
  | .atleastPkgconfigVersion => .inr ⟨[], none⟩
  | .atleastVersion => .inl (settings.override .gte value)
  | .exactVersion => .inl (settings.override .eq value)
  | .maxVersion => .inl (settings.override .lte value)
  | .silenceErrors => .inl { settings with silent := true }
  | .errorsToStdout => .inl { settings with errToStdout := true }
  | .printErrors | .shortErrors | .uninstalled => .inl settings
  | .keepSystemCflags => .inl { settings with printSysInc := true }
  | .keepSystemLibs => .inl { settings with printSysLib := true }
  | .validate => .inl { settings with silent := true, recursive := false }
  | .listAll => settings.list conf .listAll .all
  | .listPackageNames => settings.list conf .listPackageNames .names

end Settings

structure OptionState where
  opts : Options
  settings : Settings

/-- The option has been recognized, and its argument may still have to be fetched. -/
def optionTurn (conf : Config) (option : OptionName) (r : OptResult) (opts : Options)
    (settings : Settings) : OptionState ⊕ OptionEffect :=
  let applied (opts : Options) (value : S8) : OptionState ⊕ OptionEffect :=
    match settings.apply conf option value with
    | .inl settings => .inl ⟨opts, settings⟩
    | .inr report => .inr (.inr report)
  if option.takesValue then
    match r.value with
    | some value => applied opts value
    | none =>
        match getArgOpt opts with
        | none => .inr (failUsage (.argumentMissing r.arg))
        | some (value, opts) => applied opts value
  else applied opts []

/-- One turn of the loop reads one operand or one option. -/
def optionBody (conf : Config) (state : OptionState) : OptionState ⊕ OptionEffect :=
  match nextOption state.opts with
  | none => .inr (.inl state.settings)
  | some (r, opts) =>
      if !r.isOption then
        .inl ⟨opts, { state.settings with args := state.settings.args ++ [r.arg] }⟩
      else
        match optionByName r.arg with
        | none => .inr (failUsage (.unknownOption r.arg))
        | some option => optionTurn conf option r opts state.settings

def optionStart (conf : Config) : OptionState := ⟨newOptions conf.args, startSettings conf⟩

/-- The fuel bounds the turns of the loop. -/
def readOptions (fuel : Nat) (conf : Config) : Option OptionEffect :=
  Loop.run (optionBody conf) fuel (optionStart conf)

end UConfig
