/-
This file gives the loop that expands variables with a stack of 128 strings.
-/

import UConfig.Program.Package
import UConfig.Library.Emission
import UConfig.Library.Loop
import UConfig.Library.SlotStack

namespace UConfig

/-- The scan of one string ends at its first reference or at its first two dollars. -/
inductive ExpandScan where
  | plain
  | reference (head name tail : S8)
  | dollars (head rest : S8)

def ExpandScan.after (c : UInt8) : ExpandScan → ExpandScan
  | plain => plain
  | reference head name tail => reference (c :: head) name tail
  | dollars head rest => dollars (c :: head) rest

/-- The name ends before the closing brace or at the end of the string. -/
def referenceName (s : S8) : S8 := s.takeWhile (· != '}'.toUInt8)

/-- The tail starts after the closing brace, if there is one. -/
def referenceTail (s : S8) : S8 := (s.dropWhile (· != '}'.toUInt8)).drop 1

def expandScan : S8 → ExpandScan
  | c :: d :: rest =>
      if c = '$'.toUInt8 ∧ d = '{'.toUInt8 then
        .reference [] (referenceName rest) (referenceTail rest)
      else if c = '$'.toUInt8 ∧ d = '$'.toUInt8 then .dollars ['$'.toUInt8] rest
      else (expandScan (d :: rest)).after c
  | _ => .plain

structure ExpandState where
  stack : Vector S8 128
  top : Int
  out : S8

/-- The bytes written stay written when the expansion stops. -/
abbrev Expanded := Emission UInt8 Stop

/-- One turn of the loop takes the top string and puts back what is left of it. -/
def expandBody (global env : Env) (path : S8) (state : ExpandState) : ExpandState ⊕ Expanded :=
  if state.top < 0 then .inr ⟨state.out, none⟩
  else
    match SlotStack.read state.stack state.top with
    | none => .inr ⟨state.out, some .fault⟩
    | some s =>
        let top := state.top - 1
        match expandScan s with
        | .plain => .inl ⟨state.stack, top, state.out ++ s⟩
        | .reference head name tail =>
            if top ≥ 128 - 2 then .inr ⟨state.out, some (.fail (.maxRecursionIn path))⟩
            else
              match SlotStack.write state.stack (top + 1) tail with
              | none => .inr ⟨state.out ++ head, some .fault⟩
              | some stack =>
                  match lookup global env name with
                  | none =>
                      .inr ⟨state.out ++ head, some (.fail (.undefinedVariable name path))⟩
                  | some value =>
                      match SlotStack.write stack (top + 2) value with
                      | none => .inr ⟨state.out ++ head, some .fault⟩
                      | some stack => .inl ⟨stack, top + 2, state.out ++ head⟩
        | .dollars head rest =>
            match SlotStack.write state.stack (top + 1) rest with
            | none => .inr ⟨state.out ++ head, some .fault⟩
            | some stack => .inl ⟨stack, top + 1, state.out ++ head⟩

/-- The loop starts with the string in the first slot. -/
def expandStart (str : S8) : ExpandState :=
  ⟨(Vector.replicate 128 []).set 0 str, 0, []⟩

end UConfig
