/-
This file gives the exclusion of system paths and the output of the arguments.
-/

import UConfig.Program.Fields

namespace UConfig

/-- An excluded argument has the position before the first argument. -/
def Args.excludeArg (args : Args) (arg : S8) : Args :=
  let positions := HashTrie.insert (s8Hash arg) arg 0 args.positions
  { args with positions := HashTrie.modify (s8Hash arg) arg (fun _ => -1) positions }

/-- Is this the correct position for the given argument? -/
def Args.inPosition (args : Args) (arg : S8) (position : Nat) : Bool :=
  match findArgPos args.positions arg with
  | none => true
  | some n => n == position + 1

/-- Each cut shortens the string. -/
theorem s8Cut_tail_lt {s : S8} (nonempty : s ≠ []) (delim : UInt8) :
    (s8Cut s delim).tail.length < s.length := by
  have skipped := (List.dropWhile_sublist (· != delim) (l := s)).length_le
  have positive := List.length_pos_of_ne_nil nonempty
  rw [s8Cut, List.length_drop]
  omega

/-- A directory is excluded as the argument that a field would give for it. -/
def Args.excludeDir (args : Args) (dir : S8) (flag : UInt8) : Args :=
  let syspath := ['-'.toUInt8, flag] ++ s8PathEncode dir
  let dr := (dequoteToken syspath).result
  if dr.ok && dr.tail.length == 0 then args.excludeArg dr.arg else args

/-- The directories of a system path are not printed. -/
def Args.insertSysPath (args : Args) (path : S8) (delim flag : UInt8) : Args :=
  if path = [] then args
  else
    let c := s8Cut path delim
    let args := if c.head = [] then args else args.excludeDir c.head flag
    args.insertSysPath c.tail delim flag
termination_by path.length
decreasing_by exact s8Cut_tail_lt ‹_› delim

def msvcize (arg : S8) : S8 :=
  if startsWith arg (S "-L") then S "/libpath:" ++ arg.drop 2
  else if startsWith arg (S "-I") then S "/I" ++ arg.drop 2
  else if startsWith arg (S "-l") then arg.drop 2 ++ S ".lib"
  else if startsWith arg (S "-D") then S "/D" ++ arg.drop 2
  else if arg = S "-mwindows" then S "/subsystem:windows"
  else if arg = S "-mconsole" then S "/subsystem:console"
  else arg

/-- The way in which arguments are printed, where a zero delimiter stands for a space. -/
structure ArgFormat where
  msvc : Bool
  delim : UInt8

/-- The number of arguments is shared by all fields of the output. -/
structure ArgOutput where
  argCount : Nat
  out : S8
  deriving DecidableEq

def writeArg (format : ArgFormat) (output : ArgOutput) (arg : S8) : ArgOutput :=
  let delim := if format.delim ≠ 0 then format.delim else ' '.toUInt8
  let separator := if output.argCount ≠ 0 then [delim] else []
  let text := if format.msvc then msvcize arg else arg
  ⟨output.argCount + 1, output.out ++ separator ++ text⟩

/-- The positions count all arguments, printed or not. -/
def writeArgsFrom (format : ArgFormat) (args : Args) (position : Nat) :
    List S8 → ArgOutput → ArgOutput
  | [], output => output
  | arg :: rest, output =>
      let output := if args.inPosition arg position then writeArg format output arg else output
      writeArgsFrom format args (position + 1) rest output

def writeArgs (format : ArgFormat) (args : Args) (output : ArgOutput) : ArgOutput :=
  writeArgsFrom format args 0 args.list output

end UConfig
