/-
This file gives the POSIX platform, whose system calls may transfer less than they are asked for.
-/

import UConfig.Program.Main

namespace UConfig

inductive Descriptor where
  | stdout
  | stderr
  deriving DecidableEq

/-- A read at this position of an open file, whose answer is at most as long as the request. A call
that fails has no answer. -/
abbrev ReadCall := (pos request : Nat) → Option { chunk : S8 // chunk.length ≤ request }

/-- The calls that both POSIX and Linux have. A path includes its null terminator, and a file that
cannot be opened has no reads. A write answers how many bytes it has taken. -/
structure Kernel where
  file : S8 → Option ReadCall
  write : (call : Nat) → Descriptor → (s : S8) → Option (Fin (s.length + 1))

/-- The loop ends at an error, at the end of the file or when there is no room left. -/
def readFile (read : ReadCall) (cap : Nat) (data : S8) : S8 :=
  if data.length < cap then
    match read data.length (cap - data.length) with
    | none => data
    | some chunk => if chunk.1.length < 1 then data else readFile read cap (data ++ chunk.1)
  else data
termination_by cap - data.length
decreasing_by
  rw [List.length_append]
  omega

/-- The free memory may differ from one file to the other. If a file filled all of it, the file is
taken for too large. -/
def osMapFile (kernel : Kernel) (room : S8 → Nat) : MapFile := fun path =>
  match kernel.file path with
  | none => .notFound
  | some read =>
      let data := readFile read (room path) []
      if data.length = room path then .readErr else .ok data

/-- Everything that has reached the descriptors after this number of calls, in its order. -/
structure Written where
  calls : Nat
  bytes : List (Descriptor × UInt8)

structure WriteState where
  d : Written
  s : S8

/-- An error ends the process. -/
def writeBody (kernel : Kernel) (fd : Descriptor) (state : WriteState) :
    WriteState ⊕ Except Written Written :=
  if state.s.length ≠ 0 then
    match kernel.write state.d.calls fd state.s with
    | none => .inr (.error state.d)
    | some r =>
        let sent := (state.s.take r).map (fd, ·)
        .inl ⟨⟨state.d.calls + 1, state.d.bytes ++ sent⟩, state.s.drop r⟩
  else .inr (.ok state.d)

/-- The fuel bounds the number of calls. -/
def posixWrite (fuel : Nat) (kernel : Kernel) (fd : Descriptor) (d : Written) (s : S8) :
    Option (Except Written Written) :=
  Loop.run (writeBody kernel fd) fuel ⟨d, s⟩

/-- The strings are written one after the other. -/
def posixWrites (fuel : Nat) (kernel : Kernel) :
    List (Descriptor × S8) → Written → Option (Except Written Written)
  | [], d => some (.ok d)
  | (fd, s) :: writes, d => do
      match ← posixWrite fuel kernel fd d s with
      | .error d => return .error d
      | .ok d => posixWrites fuel kernel writes d

/-- A message is only printed when the program is about to fail, so it comes last. -/
def Exit.writes (exit : Exit) : List (Descriptor × S8) :=
  exit.stdout.map (.stdout, ·) ++ exit.stderr.map (.stderr, ·)

/-- The exit status of a process and what others have received from it. -/
structure Ended where
  success : Bool
  bytes : List (Descriptor × UInt8)
  deriving DecidableEq

def Exit.deliver (fuel : Nat) (kernel : Kernel) (exit : Exit) : Option Ended := do
  match ← posixWrites fuel kernel exit.writes ⟨0, []⟩ with
  | .error d => return ⟨false, d.bytes⟩
  | .ok d => return ⟨exit.success, d.bytes⟩

/-- Nothing is left to deliver after a stop. -/
def deliverOutcome (fuel : Nat) (kernel : Kernel) :
    Except Stop Exit → Option (Except Stop Ended)
  | .error stop => some (.error stop)
  | .ok exit => do
      let ended ← exit.deliver fuel kernel
      return .ok ended

/-- The process runs the main function and delivers what it writes. -/
def runProcess (fuel : Nat) (kernel : Kernel) (platform : Platform) (conf : Config) :
    Option (Except Stop Ended) := do
  let outcome ← uconfig fuel platform conf
  deliverOutcome fuel kernel outcome

def endsWith (s suffix : S8) : Bool :=
  s.length ≥ suffix.length && s.drop (s.length - suffix.length) == suffix

/-- The library reads the names of a directory one by one. -/
structure PosixKernel extends Kernel where
  entries : S8 → Option (List S8)

def posixListing (kernel : PosixKernel) : Listing := fun path =>
  match kernel.entries path with
  | none => []
  | some names => names.filter (endsWith · (S ".pc"))

/-- The constants of the build. -/
structure Builtin where
  pcPath : S8
  sysIncPath : S8
  sysLibPath : S8

/-- The value of the first definition of the variable. -/
def s8GetEnv (environ : List S8) (name : S8) : Option S8 :=
  environ.findSome? fun entry =>
    let c := s8Cut entry '='.toUInt8
    if c.ok && c.head == name then some c.tail else none

def posixConfig (builtin : Builtin) (argv environ : List S8) : Config where
  args := argv.drop 1
  pcPath := some builtin.pcPath
  pcSysIncPath := some builtin.sysIncPath
  pcSysLibPath := some builtin.sysLibPath
  envPath := s8GetEnv environ (S "PKG_CONFIG_PATH")
  fixedPath := (s8GetEnv environ (S "PKG_CONFIG_LIBDIR")).or (some builtin.pcPath)
  topBuildDir := s8GetEnv environ (S "PKG_CONFIG_TOP_BUILD_DIR")
  sysIncPath :=
    (s8GetEnv environ (S "PKG_CONFIG_SYSTEM_INCLUDE_PATH")).or (some builtin.sysIncPath)
  sysLibPath :=
    (s8GetEnv environ (S "PKG_CONFIG_SYSTEM_LIBRARY_PATH")).or (some builtin.sysLibPath)
  printSysInc := s8GetEnv environ (S "PKG_CONFIG_ALLOW_SYSTEM_CFLAGS")
  printSysLib := s8GetEnv environ (S "PKG_CONFIG_ALLOW_SYSTEM_LIBS")
  definePrefix := false
  hasListing := true
  delim := ':'.toUInt8

def posixMain (fuel : Nat) (kernel : PosixKernel) (room : S8 → Nat) (builtin : Builtin)
    (argv environ : List S8) : Option (Except Stop Ended) :=
  runProcess fuel kernel.toKernel ⟨osMapFile kernel.toKernel room, posixListing kernel⟩
    (posixConfig builtin argv environ)

end UConfig
