/-
This file gives the arguments that the fields of the packages add to the output.
-/

import UConfig.Program.Dequote
import UConfig.Library.HashTrie

namespace UConfig

/-- The filters have the names of the options that they select or leave out. -/
inductive Filter where
  | any
  | I
  | L
  | l
  | otherC
  | otherL
  deriving DecidableEq, Repr

def filterOk (f : Filter) (arg : S8) : Bool :=
  match f with
  | .any => true
  | .I => startsWith arg (S "-I")
  | .L => startsWith arg (S "-L")
  | .l => startsWith arg (S "-l")
  | .otherC => !startsWith arg (S "-I")
  | .otherL => !startsWith arg (S "-L") && !startsWith arg (S "-l")

/-- The arguments and the positions at which repeated ones are kept, where zero is no position. -/
structure Args where
  list : List S8
  positions : HashTrie S8 Int
  count : Nat

def Args.empty : Args := ⟨[], .leaf, 0⟩

def findArgPos (positions : HashTrie S8 Int) (arg : S8) : Option Int :=
  HashTrie.find (s8Hash arg) arg positions

/-- Do not count `-I` or `-L` with detached argument. -/
def dedupable (arg : S8) : Bool :=
  if arg.length < 3 ∨ arg.head? ≠ some '-'.toUInt8 then false
  else if arg = S "-pthread" then true
  else (S "DILflm").any fun flag => arg[1]? == some flag

/-- A repeated library moves to its last position, and any other argument keeps its first. -/
def Args.appendArg (args : Args) (arg : S8) : Args :=
  let list := args.list ++ [arg]
  let position := args.count
  if dedupable arg then
    let positions := HashTrie.insert (s8Hash arg) arg 0 args.positions
    let n := (findArgPos positions arg).getD 0
    let positions :=
      if n = 0 ∨ startsWith arg (S "-l") then
        HashTrie.modify (s8Hash arg) arg (fun _ => 1 + (position : Int)) positions
      else positions
    ⟨list, positions, args.count + 1⟩
  else ⟨list, args.positions, args.count + 1⟩

/-- The arguments are appended one after the other. -/
def Args.appendArgs (args : Args) (items : List S8) : Args := items.foldl Args.appendArg args

structure FieldWriter where
  args : Args
  filter : Filter

/-- The scan of a word never goes back. -/
theorem dequoteScan_tail (q : Quoting) (s : S8) : (dequoteScan q s).tail.length ≤ s.length := by
  induction s generalizing q with
  | nil => exact Nat.le_refl 0
  | cons b s ih =>
      rw [dequoteScan]
      split
      · exact Nat.le_refl _
      · exact (ih _).trans (Nat.le_succ _)

/-- An unquoted byte that is not whitespace never ends an argument. -/
theorem dequoteByte_start_isSome : ∀ b, whitespace b = false →
    (dequoteByte .start b).isSome = true :=
  forall_byte (by decide +kernel)

/-- Every token of a field that is not empty consumes at least one byte. -/
theorem dequoteToken_tail_lt {field : S8} (nonempty : field ≠ []) :
    (dequoteToken field).result.tail.length < field.length := by
  have positive := List.length_pos_of_ne_nil nonempty
  have skipped := (List.dropWhile_sublist whitespace (l := field)).length_le
  have shorter : (dequoteToken field).tail.length < field.length := by
    rw [dequoteToken]
    cases solid : field.dropWhile whitespace with
    | nil => exact positive
    | cons b s =>
        have isSome := dequoteByte_start_isSome b (stops_of_dropWhile solid)
        obtain ⟨next, consumed⟩ := Option.isSome_iff_exists.mp isSome
        have rest := dequoteScan_tail next.2 s
        rw [solid, List.length_cons] at skipped
        rw [dequoteScan, consumed]
        dsimp only
        omega
  rw [DequoteScan.result]
  split
  · exact positive
  · exact shorter

/-- A field is taken apart until nothing of it is left. -/
def appendField (w : FieldWriter) (realname field : S8) : Except Stop FieldWriter :=
  if field = [] then .ok w
  else
    let r := (dequoteToken field).result
    if !r.ok then .error (.fail (.unmatchedQuote realname))
    else
      let w := if filterOk w.filter r.arg then { w with args := w.args.appendArg r.arg } else w
      appendField w realname r.tail
termination_by field.length
decreasing_by exact dequoteToken_tail_lt ‹_›

/-- An argument is appended whatever its positions are. -/
@[simp] theorem appendArg_list (args : Args) (arg : S8) :
    (args.appendArg arg).list = args.list ++ [arg] := by
  unfold Args.appendArg
  dsimp only
  split <;> rfl

end UConfig
