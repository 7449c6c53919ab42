/-
This file gives the main function, which answers the queries and leaves with an exit status.
-/

import UConfig.Program.List
import UConfig.Program.Options
import UConfig.Program.Output
import UConfig.Program.Variable
import UConfig.Program.WriteArgs

namespace UConfig

/-- What the program reads from its platform while it runs. -/
structure Platform where
  mapFile : MapFile
  listing : Listing

/-- The exit status and what has been written to the two descriptors. -/
structure Exit where
  success : Bool
  stdout : List S8
  stderr : List S8
  deriving DecidableEq

/-- The strings of the search list in order. -/
def Settings.dirs (settings : Settings) : List S8 :=
  LinkedList.walk settings.nodes settings.nodes.length settings.search.list.head

def Settings.processor (platform : Platform) (settings : Settings) : Processor where
  mapFile := platform.mapFile
  search := settings.dirs
  global := settings.global
  maxDepth := settings.maxDepth
  definePrefix := settings.definePrefix
  recursive := settings.recursive
  ignoreVersions := settings.ignoreVersions

/-- The packages in the order of the list. -/
def Pkgs.packages (pkgs : Pkgs) : List Pkg :=
  pkgs.list.filterMap fun realname => (pkgs.find realname).map (·.pkg)

def Pkg.text (p : Pkg) (field : Field) : S8 := (p.field field).getD []

/-- The version of every package is compared, whether it was asked for directly or not. -/
def checkOverride (settings : Settings) (p : Pkg) : Except Stop Unit :=
  let version := p.text .version
  let want := settings.overrideVersion.getD []
  match validCompare settings.overrideOp (compareVersions version want) with
  | none => .error .fault
  | some true => .ok ()
  | some false => .error (.fail (.versionMismatch p.realname settings.overrideOp want version))

def checkOverrides (settings : Settings) (packages : List Pkg) : Except Stop Unit :=
  if settings.overrideOp = .err then .ok () else packages.forM (checkOverride settings)

def printModVersion (p : Pkg) : Expanded :=
  if p.flags.isDirect then .print (p.text .version ++ S "\n") else .print []

/-- The packages print one after the other. -/
def forPackages (turn : Pkg → Expanded) : List Pkg → Expanded
  | [] => .print []
  | p :: packages => (turn p).andThen (forPackages turn packages)

def newFieldWriter (filter : Filter) : FieldWriter := ⟨.empty, filter⟩

def Settings.format (settings : Settings) : ArgFormat := ⟨settings.msvc, settings.argDelim⟩

/-- The fields of a package that one kind of arguments is taken from. -/
def Settings.cflagsFields (settings : Settings) (_ : Pkg) : List Field :=
  if settings.static then [.cflags, .cflagsPrivate] else [.cflags]

/-- Without static linking only the packages that are public have libraries. -/
def Settings.libsFields (settings : Settings) (p : Pkg) : List Field :=
  if settings.static then [.libs, .libsPrivate]
  else if p.flags.isPublic then [.libs] else []

def appendPackage (select : Pkg → List Field) (w : FieldWriter) (p : Pkg) :
    Except Stop FieldWriter :=
  (select p).foldlM (fun w field => appendField w p.realname (p.text field)) w

/-- The arguments of the packages follow what has been printed before. -/
def writeFields (settings : Settings) (filter : Filter) (exclude : Args → Args)
    (select : Pkg → List Field) (packages : List Pkg) (output : ArgOutput) :
    Except Stop ArgOutput := do
  let w := newFieldWriter filter
  let w := { w with args := exclude w.args }
  let w ← packages.foldlM (appendPackage select) w
  return writeArgs settings.format w.args output

def Settings.excludeIncludes (settings : Settings) (conf : Config) (args : Args) : Args :=
  if settings.printSysInc then args
  else args.insertSysPath (conf.sysIncPath.getD []) conf.delim 'I'.toUInt8

def Settings.excludeLibs (settings : Settings) (conf : Config) (args : Args) : Args :=
  if settings.printSysLib then args
  else args.insertSysPath (conf.sysLibPath.getD []) conf.delim 'L'.toUInt8

def writeCflags (conf : Config) (settings : Settings) (packages : List Pkg)
    (output : ArgOutput) : Except Stop ArgOutput :=
  if settings.cflags then
    writeFields settings settings.filterC (settings.excludeIncludes conf) settings.cflagsFields
      packages output
  else .ok output

def writeLibs (conf : Config) (settings : Settings) (packages : List Pkg)
    (output : ArgOutput) : Except Stop ArgOutput :=
  if settings.libs then
    writeFields settings settings.filterL (settings.excludeLibs conf) settings.libsFields
      packages output
  else .ok output

/-- What is printed before a failure stays printed. -/
def printArgs (conf : Config) (settings : Settings) (packages : List Pkg) : Expanded :=
  match writeCflags conf settings packages ⟨0, []⟩ with
  | .error stop => ⟨[], some stop⟩
  | .ok output =>
      match writeLibs conf settings packages output with
      | .error stop => ⟨output.out, some stop⟩
      | .ok output =>
          ⟨output.out ++ (if settings.cflags || settings.libs then S "\n" else []), none⟩

def printModVersions (settings : Settings) (packages : List Pkg) : Expanded :=
  if settings.modversion then forPackages printModVersion packages else .print []

def printVariables (settings : Settings) (packages : List Pkg) : Expanded :=
  match settings.variableName with
  | some name => forPackages (printVariable settings.global name) packages
  | none => .print []

/-- The queries about the packages are answered in a fixed order. -/
def answer (conf : Config) (settings : Settings) (packages : List Pkg) : Expanded :=
  match checkOverrides settings packages with
  | .error stop => ⟨[], some stop⟩
  | .ok () =>
      (printModVersions settings packages).andThen
        ((printVariables settings packages).andThen (printArgs conf settings packages))

def Expanded.report (expanded : Expanded) : Report :=
  ⟨expanded.written, expanded.stop.map .stop⟩

def answerPackages (conf : Config) (settings : Settings) (pkgs : Pkgs) : Report :=
  if pkgs.count = 0 then ⟨[], some (.usage .noPackageName)⟩
  else (answer conf settings pkgs.packages).report

def listReport (platform : Platform) (settings : Settings) (all : Bool) : Report :=
  (list platform.listing platform.mapFile settings.global all settings.dirs).report

/-- The report once the packages have been loaded or could not be. -/
def processReport (conf : Config) (settings : Settings) : Except Stop Pkgs → Report
  | .error stop => ⟨[], some (.stop stop)⟩
  | .ok pkgs => answerPackages conf settings pkgs

/-- The run after the options have been read. -/
def runSettings (fuel : Nat) (platform : Platform) (conf : Config) (settings : Settings) :
    Option Report :=
  match settings.listing with
  | .all => some (listReport platform settings true)
  | .names => some (listReport platform settings false)
  | .none =>
      match parseSpecs settings.args none with
      | .error stop => some ⟨[], some (.stop stop)⟩
      | .ok specs => do
          let loaded ← process fuel (settings.processor platform) specs
          return processReport conf settings loaded

/-- Where the messages go. -/
inductive Errors where
  | own
  | toStdout
  | silent
  deriving DecidableEq, Repr

/-- The silent buffer replaces the other one. -/
def Settings.errors (settings : Settings) : Errors :=
  if settings.silent then .silent
  else if settings.errToStdout then .toStdout
  else .own

/-- The buffer for errors, which may be the one for the output. -/
def Errors.buffer (out : Output) : Errors → Output
  | own => .newFdBuf 2 128
  | toStdout => out
  | silent => .newNullOut

/-- No other buffer than the one for errors has been flushed. -/
def Errors.exit (out err : Output) : Errors → Exit
  | own => ⟨false, out.written, err.written⟩
  | toStdout => ⟨false, err.written, []⟩
  | silent => ⟨false, out.written, []⟩

/-- The message is printed and flushed before the program fails. -/
def failWith (fuel : Nat) (errors : Errors) (out : Output) (message : S8) :
    Option (Except Stop Exit) := do
  let printed ← (errors.buffer out).printS8 fuel message
  return do
    let err ← printed
    let err ← err.flush
    return errors.exit out err

/-- Running out of memory is reported to the descriptor itself. -/
def oom : S8 := S "pkg-config: out of memory\n"

/-- The program returns or halts when everything before has been printed. -/
def leave (fuel : Nat) (errors : Errors) (halt : Option Halt) (out : Output) :
    Option (Except Stop Exit) :=
  match halt with
  | none => some do
      let out ← out.flush
      return ⟨true, out.written, []⟩
  | some (.stop .fault) => some (.error .fault)
  | some (.stop .outOfMemory) => some (.ok ⟨false, out.written, [oom]⟩)
  | some (.stop (.fail failure)) => failWith fuel errors out failure.message
  | some (.usage error) => failWith fuel errors out error.message

/-- The report goes through the buffers of the program. -/
def Report.exit (fuel : Nat) (errors : Errors) (report : Report) :
    Option (Except Stop Exit) := do
  match ← (Output.newFdBuf 1 4096).printS8 fuel report.written with
  | .error stop => return .error stop
  | .ok out => leave fuel errors report.halt out

/-- Failures of the options go to the descriptor for errors whatever the options were. The arena is
taken to suffice for the whole run. -/
def uconfig (fuel : Nat) (platform : Platform) (conf : Config) : Option (Except Stop Exit) := do
  match ← readOptions fuel conf with
  | .inr report => report.exit fuel .own
  | .inl settings =>
      let report ← runSettings fuel platform conf settings
      report.exit fuel settings.errors

end UConfig
