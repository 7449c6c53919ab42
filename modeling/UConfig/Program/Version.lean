/-
This file gives the comparison of package versions and its operators.
-/

import UConfig.Program.S8

namespace UConfig

/-- The error value stands for a specification without an operator. -/
inductive VersOp where
  | err
  | lt
  | lte
  | eq
  | gte
  | gt
  deriving DecidableEq, Repr

def parseOp (s : S8) : VersOp :=
  if s = S "<" then .lt
  else if s = S "<=" then .lte
  else if s = S "=" then .eq
  else if s = S ">=" then .gte
  else if s = S ">" then .gt
  else .err

/-- The error value has no name, and asking for it is an assertion failure. -/
def opName : VersOp → Option S8
  | .err => none
  | .lt => some (S "<")
  | .lte => some (S "<=")
  | .eq => some (S "=")
  | .gte => some (S ">=")
  | .gt => some (S ">")

/-- The error value compares nothing, and asking for it is an assertion failure. -/
def validCompare (op : VersOp) (result : Int) : Option Bool :=
  match op with
  | .err => none
  | .lt => some (result < 0)
  | .lte => some (result ≤ 0)
  | .eq => some (result = 0)
  | .gte => some (result ≥ 0)
  | .gt => some (result > 0)

/-- The first difference of two runs of the same length decides. -/
def compareRuns : S8 → S8 → Option Int
  | a :: restA, b :: restB =>
      if a < b then some (-1) else if b < a then some 1 else compareRuns restA restB
  | _, _ => none

/-- Both strings stand for their parts from the current index on. -/
def compareVersions (va vb : S8) : Int :=
  match va, vb with
  | a :: restA, b :: restB =>
      if unlike : !digit a || !digit b then
        if a < b then -1
        else if b < a then 1
        else compareVersions restA restB
      else
        let pa := digits (a :: restA)
        let pb := digits (b :: restB)
        if pa.head.length < pb.head.length then -1
        else if pb.head.length < pa.head.length then 1
        else (compareRuns pa.head pb.head).getD (compareVersions pa.tail pb.tail)
  | va, vb =>
      if va.length < vb.length then -1
      else if vb.length < va.length then 1
      else 0
termination_by va.length
decreasing_by
  · simp
  · have run : digit a = true := by
      by_contra other
      exact unlike (by simp [other])
    rw [digits, List.dropWhile_cons_of_pos run, List.length_cons]
    exact Nat.lt_succ_of_le (List.dropWhile_sublist _).length_le

end UConfig
