/-
This file proves that the writer puts its arguments on one line.
-/

import UConfig.Program.WriteArgs

namespace UConfig

namespace ArgFormat

variable (format : ArgFormat)

/-- A delimiter of zero stands for a space. -/
def separator : UInt8 := if format.delim ≠ 0 then format.delim else ' '.toUInt8

/-- An argument as the linker of this format reads it. -/
def text (arg : S8) : S8 := if format.msvc then msvcize arg else arg

/-- The arguments with a delimiter between each two of them. -/
def line (args : List S8) : S8 := [format.separator].intercalate (args.map format.text)

/-- What the arguments add to a line that has this number of arguments already. -/
def added (count : Nat) (args : List S8) : S8 :=
  if count = 0 then format.line args
  else args.flatMap fun arg => format.separator :: format.text arg

/-- Every argument but the first one stands behind a delimiter. -/
theorem line_cons (arg : S8) (args : List S8) : format.line (arg :: args) =
    format.text arg ++ args.flatMap fun arg => format.separator :: format.text arg := by
  induction args generalizing arg with
  | nil => simp [line]
  | cons next args ih =>
      have rest := ih next
      unfold line at rest ⊢
      rw [List.map_cons] at rest
      rw [List.map_cons, List.map_cons, List.intercalate_cons_cons, rest, List.flatMap_cons,
        List.append_assoc, List.singleton_append, List.cons_append]

/-- Two lines make one when a delimiter stands between them. -/
theorem line_append {first second : List S8} (filled : first ≠ []) (filled' : second ≠ []) :
    format.line (first ++ second) = format.line first ++ format.separator :: format.line second := by
  obtain ⟨arg, first, rfl⟩ := List.exists_cons_of_ne_nil filled
  obtain ⟨arg', second, rfl⟩ := List.exists_cons_of_ne_nil filled'
  rw [List.cons_append, line_cons, line_cons, line_cons, List.flatMap_append, List.flatMap_cons,
    List.append_assoc, List.cons_append]

/-- The writer adds the arguments to the line that it has written so far. -/
theorem foldl_writeArg_added (args : List S8) (output : ArgOutput) :
    args.foldl (writeArg format) output =
      ⟨output.argCount + args.length, output.out ++ format.added output.argCount args⟩ := by
  induction args generalizing output with
  | nil => simp [added, line]
  | cons arg args ih =>
      have more : ¬output.argCount + 1 = 0 := Nat.succ_ne_zero _
      rw [List.foldl_cons, ih, writeArg]
      dsimp only
      rw [added, if_neg more, added, List.length_cons, Nat.add_right_comm, ← Nat.add_assoc]
      by_cases first : output.argCount = 0
      · simp [first, line_cons, text]
      · simp [first, text, separator]

/-- The writer puts the arguments on one line. -/
theorem foldl_writeArg (args : List S8) :
    args.foldl (writeArg format) ⟨0, []⟩ = ⟨args.length, format.line args⟩ := by
  rw [foldl_writeArg_added, Nat.zero_add]
  rfl

end ArgFormat

end UConfig
