/-
This file gives the components of a path and proves that cutting takes them off one by one.
-/

import UConfig.Program.S8

namespace UConfig

/-- The components of a path are its nonempty parts between delimiters. -/
def components (path : S8) (delim : UInt8) : List S8 :=
  (path.splitOnP (· == delim)).filter (· ≠ [])

/-- An empty path has no directories. -/
theorem components_nil (delim : UInt8) : components [] delim = [] := rfl

/-- A cut takes the first component off when it is not empty. -/
theorem components_cut (path : S8) (delim : UInt8) : components path delim =
    (if (s8Cut path delim).head = [] then [] else [(s8Cut path delim).head]) ++
      components (s8Cut path delim).tail delim := by
  have first : ∀ c ∈ (s8Cut path delim).head, (c == delim) = false := by
    intro c member
    simpa using List.mem_takeWhile_imp member
  have single : ∀ part : S8, [part].filter (· ≠ []) = if part = [] then [] else [part] := by
    intro part
    by_cases empty : part = [] <;> simp [empty]
  have parts : path = (s8Cut path delim).head ++ path.dropWhile (· != delim) :=
    List.takeWhile_append_dropWhile.symm
  cases behind : path.dropWhile (· != delim) with
  | nil =>
      rw [behind, List.append_nil] at parts
      have tail : (s8Cut path delim).tail = [] := by
        rw [s8Cut, behind]
        rfl
      conv_lhs => rw [parts]
      rw [components, List.splitOnP_eq_singleton first, single, tail, components_nil,
        List.append_nil]
  | cons c rest =>
      rw [behind] at parts
      have tail : (s8Cut path delim).tail = rest := by
        rw [s8Cut, behind]
        rfl
      have isDelim : (c == delim) = true := by simpa using stops_of_dropWhile behind
      conv_lhs => rw [parts]
      rw [components, List.splitOnP_append_cons_of_forall_mem first c isDelim, tail,
        ← List.singleton_append, List.filter_append, single]
      rfl

end UConfig
