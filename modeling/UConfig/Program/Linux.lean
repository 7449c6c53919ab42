/-
This file gives the Linux platform, which reads the records of a directory and the entries of the
environment itself.
-/

import UConfig.Program.Posix

namespace UConfig

/-- The size of the buffer for the records of a directory. -/
def dentsCap : Nat := 16384

/-- A directory that cannot be opened has no calls, and a call fills a part of the buffer. -/
structure LinuxKernel extends Kernel where
  dents : S8 → Option ((call : Nat) → Option { buf : S8 // buf.length ≤ dentsCap })

/-- A signed number of two bytes, the lower one first. -/
def shortAt (buf : S8) (off : Nat) : Option Int := do
  let low ← buf[off]?
  let high ← buf[off + 1]?
  return (BitVec.ofNat 16 (low.toNat + 256 * high.toNat)).toInt

/-- The bytes up to the null terminator. -/
def s8FromCStr (z : S8) : Option S8 :=
  if 0 ∈ z then some (z.takeWhile (· != 0)) else none

/-- The members of a record that are used, where the length is the one of the whole record. -/
structure Dents where
  len : Int
  name : S8

/-- The length is at offset 16 and the name at offset 19. The result is none when a member is not
within what has been filled. -/
def dentsAt (buf : S8) (off : Int) : Option Dents :=
  if off < 0 then none
  else do
    let len ← shortAt buf (off.toNat + 16)
    let name ← s8FromCStr (buf.drop (off.toNat + 19))
    return ⟨len, name⟩

/-- The bytes that the last call has filled and the offset of the next record in them. -/
structure ListingState where
  calls : Nat
  buf : S8
  off : Int
  files : List S8

/-- One turn reads a record, or it fills the buffer again when all records have been read. -/
def listingBody (dents : (call : Nat) → Option { buf : S8 // buf.length ≤ dentsCap })
    (state : ListingState) : ListingState ⊕ Option (List S8) :=
  if state.off < state.buf.length then
    match dentsAt state.buf state.off with
    | none => .inr none
    | some d => .inl { state with
        off := state.off + d.len
        files := if endsWith d.name (S ".pc") then state.files ++ [d.name] else state.files }
  else
    match dents state.calls with
    | none => .inr (some state.files)
    | some buf =>
        if buf.1.length < 1 then .inr (some state.files)
        else .inl ⟨state.calls + 1, buf.1, 0, state.files⟩

def listingStart : ListingState := ⟨0, [], 0, []⟩

/-- The fuel bounds the turns, and a read outside of what has been filled has no names. -/
def linuxListing (fuel : Nat) (kernel : LinuxKernel) (path : S8) : Option (Option (List S8)) :=
  match kernel.dents path with
  | none => some (some [])
  | some dents => Loop.run (listingBody dents) fuel listingStart

/-- The variables of the environment in the order of the tests. -/
inductive EnvVar where
  | path
  | libDir
  | topBuildDir
  | systemIncludePath
  | systemLibraryPath
  | allowSystemCflags
  | allowSystemLibs
  deriving DecidableEq

namespace EnvVar

def label : EnvVar → S8
  | path => S "PKG_CONFIG_PATH"
  | libDir => S "PKG_CONFIG_LIBDIR"
  | topBuildDir => S "PKG_CONFIG_TOP_BUILD_DIR"
  | systemIncludePath => S "PKG_CONFIG_SYSTEM_INCLUDE_PATH"
  | systemLibraryPath => S "PKG_CONFIG_SYSTEM_LIBRARY_PATH"
  | allowSystemCflags => S "PKG_CONFIG_ALLOW_SYSTEM_CFLAGS"
  | allowSystemLibs => S "PKG_CONFIG_ALLOW_SYSTEM_LIBS"

def all : List EnvVar :=
  [path, libDir, topBuildDir, systemIncludePath, systemLibraryPath, allowSystemCflags,
    allowSystemLibs]

end EnvVar

def envVarByName (name : S8) : Option EnvVar := EnvVar.all.find? (·.label == name)

def Config.setVar (conf : Config) (var : EnvVar) (value : S8) : Config :=
  match var with
  | .path => { conf with envPath := some value }
  | .libDir => { conf with fixedPath := some value }
  | .topBuildDir => { conf with topBuildDir := some value }
  | .systemIncludePath => { conf with sysIncPath := some value }
  | .systemLibraryPath => { conf with sysLibPath := some value }
  | .allowSystemCflags => { conf with printSysInc := some value }
  | .allowSystemLibs => { conf with printSysLib := some value }

def linuxStart (builtin : Builtin) (argv : List S8) : Config where
  args := argv.drop 1
  pcPath := some builtin.pcPath
  pcSysIncPath := some builtin.sysIncPath
  pcSysLibPath := some builtin.sysLibPath
  envPath := none
  fixedPath := some builtin.pcPath
  topBuildDir := none
  sysIncPath := some builtin.sysIncPath
  sysLibPath := some builtin.sysLibPath
  printSysInc := none
  printSysLib := none
  definePrefix := false
  hasListing := true
  delim := ':'.toUInt8

/-- An entry without a value counts as one with an empty value. -/
def linuxEntry (conf : Config) (entry : S8) : Config :=
  let c := s8Cut entry '='.toUInt8
  match envVarByName c.head with
  | some var => conf.setVar var c.tail
  | none => conf

def linuxConfig (builtin : Builtin) (argv environ : List S8) : Config :=
  environ.foldl linuxEntry (linuxStart builtin argv)

/-- The process for the directories that the kernel lists. -/
def linuxMain (fuel : Nat) (kernel : LinuxKernel) (listing : Listing) (room : S8 → Nat)
    (builtin : Builtin) (argv environ : List S8) : Option (Except Stop Ended) :=
  runProcess fuel kernel.toKernel ⟨osMapFile kernel.toKernel room, listing⟩
    (linuxConfig builtin argv environ)

end UConfig
