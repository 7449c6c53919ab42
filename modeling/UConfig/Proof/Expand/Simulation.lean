/-
This file proves that the loop with the stack does what the recursive expander says.
-/

import UConfig.Proof.Expand.Recursive

namespace UConfig

open Loop SlotStack

/-- A text without a reference and without two dollars is copied. -/
theorem expandText_plain (refer : S8 → S8 → Expansion) (run s : S8)
    (scan : expandScan s = .plain) : expandText refer run s = .print s := by
  induction s using expandScan.induct generalizing run with
  | case1 c d rest isReference => simp [expandScan, isReference] at scan
  | case2 c d rest notReference isDollars =>
      rw [expandScan, if_neg notReference, if_pos isDollars] at scan
      cases scan
  | case3 c d rest notReference notDollars ih =>
      rw [expandScan, if_neg notReference, if_neg notDollars] at scan
      have plain : expandScan (d :: rest) = .plain := by
        cases found : expandScan (d :: rest) <;> rw [found] at scan <;> first | rfl | cases scan
      rw [expandText, if_neg notReference, if_neg notDollars, ih _ plain]
      rfl
  | case4 s short =>
      cases s with
      | nil => rw [expandText]
      | cons c rest =>
          cases rest with
          | nil => rw [expandText]
          | cons d rest => exact absurd rfl (short c d rest)

/-- The text before the first reference is copied, and the text after it is expanded last. -/
theorem expandText_reference (refer : S8 → S8 → Expansion) (run s : S8)
    {head name tail : S8} (scan : expandScan s = .reference head name tail) :
    expandText refer run s = (Emission.print head).andThen
      ((refer (run ++ head) name).andThen (expandText refer [] tail)) ∧
    tail.length < s.length := by
  induction s using expandScan.induct generalizing run head with
  | case1 c d rest isReference =>
      rw [expandScan, if_pos isReference] at scan
      cases scan
      have shorter := referenceTail_length rest
      refine ⟨?_, by simp only [List.length_cons]; omega⟩
      rw [expandText, if_pos isReference, List.append_nil]
      rfl
  | case2 c d rest notReference isDollars =>
      rw [expandScan, if_neg notReference, if_pos isDollars] at scan
      cases scan
  | case3 c d rest notReference notDollars ih =>
      rw [expandScan, if_neg notReference, if_neg notDollars] at scan
      cases found : expandScan (d :: rest) with
      | plain => rw [found] at scan; cases scan
      | dollars _ _ => rw [found] at scan; cases scan
      | reference head' name' tail' =>
          rw [found] at scan
          cases scan
          obtain ⟨text, shorter⟩ := ih (run ++ [c]) found
          refine ⟨?_, Nat.lt_succ_of_lt shorter⟩
          rw [expandText, if_neg notReference, if_neg notDollars, text,
            List.append_assoc, List.singleton_append]
          rfl
  | case4 s short =>
      cases s with
      | nil => cases scan
      | cons c rest =>
          cases rest with
          | nil => cases scan
          | cons d rest => exact absurd rfl (short c d rest)

/-- Two dollars give one dollar, and the text after them is a new text. -/
theorem expandText_dollars (refer : S8 → S8 → Expansion) (run s : S8) {head rest : S8}
    (scan : expandScan s = .dollars head rest) :
    expandText refer run s = (Emission.print head).andThen (expandText refer [] rest) ∧
    rest.length < s.length := by
  induction s using expandScan.induct generalizing run head with
  | case1 c d rest isReference => simp [expandScan, isReference] at scan
  | case2 c d rest notReference isDollars =>
      rw [expandScan, if_neg notReference, if_pos isDollars] at scan
      cases scan
      refine ⟨?_, by simp only [List.length_cons]; omega⟩
      rw [expandText, if_neg notReference, if_pos isDollars]
  | case3 c d rest notReference notDollars ih =>
      rw [expandScan, if_neg notReference, if_neg notDollars] at scan
      cases found : expandScan (d :: rest) with
      | plain => rw [found] at scan; cases scan
      | reference _ _ _ => rw [found] at scan; cases scan
      | dollars head' rest' =>
          rw [found] at scan
          cases scan
          obtain ⟨text, shorter⟩ := ih (run ++ [c]) found
          refine ⟨?_, Nat.lt_succ_of_lt shorter⟩
          rw [expandText, if_neg notReference, if_neg notDollars, text]
          rfl
  | case4 s short =>
      cases s with
      | nil => cases scan
      | cons c rest =>
          cases rest with
          | nil => cases scan
          | cons d rest => exact absurd rfl (short c d rest)

section

variable (global env : Env) (path : S8)

/-- The loop does to the top string what the expansion says and goes on with what is below.
At the depth limit the loop has not written the bytes since the last cut yet. -/
def Follows (state : ExpandState) (below : List S8) (expansion : Expansion) : Prop :=
  match expansion.stop with
  | none => ∃ stack top, Runs (expandBody global env path) state
      ⟨stack, top, state.out ++ expansion.written⟩ ∧ Holds stack top below
  | some (.undefined name) => Ends (expandBody global env path) state
      ⟨state.out ++ expansion.written, some (.fail (.undefinedVariable name path))⟩
  | some (.tooDeep run) => ∃ early, expansion.written = early ++ run ∧
      Ends (expandBody global env path) state
        ⟨state.out ++ early, some (.fail (.maxRecursionIn path))⟩

end

variable {global env : Env} {path : S8}

/-- A turn that writes some bytes comes before the rest of the expansion. -/
theorem Follows.turn {state next : ExpandState} {below : List S8} {expansion : Expansion}
    {head : S8} (turn : expandBody global env path state = .inl next)
    (out : next.out = state.out ++ head) (follows : Follows global env path next below expansion) :
    Follows global env path state below ((Emission.print head).andThen expansion) := by
  have first : Runs (expandBody global env path) state next := .single turn
  obtain ⟨written, failure⟩ := expansion
  rw [Emission.print_andThen]
  cases failure with
  | none =>
      obtain ⟨stack, top, runs, holds⟩ := follows
      rw [out, List.append_assoc] at runs
      exact ⟨stack, top, first.trans runs, holds⟩
  | some failure =>
      cases failure with
      | undefined name =>
          have ends : Ends (expandBody global env path) next ⟨next.out ++ written, _⟩ := follows
          rw [out, List.append_assoc] at ends
          exact ends.after first
      | tooDeep run =>
          obtain ⟨early, same, ends⟩ := follows
          rw [out, List.append_assoc] at ends
          refine ⟨head ++ early, ?_, ends.after first⟩
          exact (congrArg (head ++ ·) same).trans (List.append_assoc ..).symm

/-- Two expansions follow each other when the second one starts where the first one ends. -/
theorem Follows.andThen {state : ExpandState} {middle below : List S8}
    {first second : Expansion} (follows : Follows global env path state middle first)
    (continues : ∀ stack top, Holds stack top middle →
      Follows global env path ⟨stack, top, state.out ++ first.written⟩ below second) :
    Follows global env path state below (first.andThen second) := by
  obtain ⟨written, failure⟩ := first
  cases failure with
  | some failure => cases failure <;> exact follows
  | none =>
      obtain ⟨stack, top, runs, holds⟩ := follows
      have follows := continues stack top holds
      obtain ⟨written', failure⟩ := second
      cases failure with
      | none =>
          obtain ⟨stack', top', runs', holds'⟩ := follows
          rw [List.append_assoc] at runs'
          exact ⟨stack', top', runs.trans runs', holds'⟩
      | some failure =>
          cases failure with
          | undefined name =>
              have ends : Ends (expandBody global env path) ⟨stack, top, state.out ++ written⟩
                ⟨state.out ++ written ++ written', _⟩ := follows
              rw [List.append_assoc] at ends
              exact ends.after runs
          | tooDeep run =>
              obtain ⟨early, same, ends⟩ := follows
              rw [List.append_assoc] at ends
              refine ⟨written ++ early, ?_, ends.after runs⟩
              exact (congrArg (written ++ ·) same).trans (List.append_assoc ..).symm

/-- A string without anything to expand is written and removed. -/
theorem expandBody_plain {state : ExpandState} {s : S8} {below : List S8}
    (holds : Holds state.stack state.top (s :: below)) (scan : expandScan s = .plain) :
    expandBody global env path state = .inl ⟨state.stack, state.top - 1, state.out ++ s⟩ := by
  have nonneg : ¬ state.top < 0 := by
    rw [← holds.nil_iff]
    simp
  simp only [expandBody, if_neg nonneg, holds.read_top, scan]

/-- After two dollars the rest of the string takes the string's slot. -/
theorem expandBody_dollars {state : ExpandState} {s head rest : S8} {below : List S8}
    (holds : Holds state.stack state.top (s :: below)) (scan : expandScan s = .dollars head rest) :
    ∃ stack, expandBody global env path state = .inl ⟨stack, state.top, state.out ++ head⟩ ∧
      Holds stack state.top (rest :: below) := by
  have nonneg : ¬ state.top < 0 := by
    rw [← holds.nil_iff]
    simp
  obtain ⟨stack, written⟩ := write_isSome state.stack state.top rest (by omega) holds.top_lt
  refine ⟨stack, ?_, holds.replace written⟩
  simp only [expandBody, if_neg nonneg, holds.read_top, scan, Int.sub_add_cancel, written]

variable (global env path) in
/-- The tail of a reference takes the string's slot, and the value goes on top of it. -/
theorem expandBody_reference {state : ExpandState} {s head name tail : S8} {below : List S8}
    (holds : Holds state.stack state.top (s :: below))
    (scan : expandScan s = .reference head name tail) (room : below.length < 127) :
    (lookup global env name = none → expandBody global env path state =
      .inr ⟨state.out ++ head, some (.fail (.undefinedVariable name path))⟩) ∧
    ∀ value, lookup global env name = some value → ∃ stack,
      expandBody global env path state = .inl ⟨stack, state.top + 1, state.out ++ head⟩ ∧
      Holds stack (state.top + 1) (value :: tail :: below) := by
  have size := holds.size
  rw [List.length_cons] at size
  have nonneg : ¬ state.top < 0 := by omega
  have shallow : ¬ state.top - 1 ≥ 128 - 2 := by omega
  obtain ⟨stack, written⟩ := write_isSome state.stack state.top tail (by omega) holds.top_lt
  have holds' := holds.replace written
  refine ⟨fun missing => ?_, fun value found => ?_⟩
  · simp only [expandBody, if_neg nonneg, holds.read_top, scan, if_neg shallow,
      Int.sub_add_cancel, written, missing]
  · obtain ⟨stack', written'⟩ := write_isSome stack (state.top + 1) value (by omega)
      (by push_cast; omega)
    refine ⟨stack', ?_, holds'.push written'⟩
    have above : state.top - 1 + 2 = state.top + 1 := by omega
    simp only [expandBody, if_neg nonneg, holds.read_top, scan, if_neg shallow,
      Int.sub_add_cancel, written, found, above, written']

/-- At the depth limit a reference stops the loop before anything is written. -/
theorem expandBody_tooDeep {state : ExpandState} {s head name tail : S8} {below : List S8}
    (holds : Holds state.stack state.top (s :: below))
    (scan : expandScan s = .reference head name tail) (full : below.length = 127) :
    expandBody global env path state = .inr ⟨state.out, some (.fail (.maxRecursionIn path))⟩ := by
  have size := holds.size
  rw [List.length_cons] at size
  have nonneg : ¬ state.top < 0 := by omega
  have deep : state.top - 1 ≥ 128 - 2 := by omega
  simp only [expandBody, if_neg nonneg, holds.read_top, scan, if_pos deep]

/-- A text is expanded on top of the stack when each of its references is. -/
theorem follows_text {refer : S8 → S8 → Expansion} (depth : Nat)
    (meets : ∀ state s below head name tail, Holds state.stack state.top (s :: below) →
      below.length = depth → expandScan s = .reference head name tail →
      Follows global env path state (tail :: below) ((Emission.print head).andThen (refer head name)))
    (s : S8) (state : ExpandState) (below : List S8)
    (holds : Holds state.stack state.top (s :: below)) (size : below.length = depth) :
    Follows global env path state below (expandText refer [] s) := by
  induction length : s.length using Nat.strong_induction_on generalizing s state with
  | _ length ih =>
      subst length
      cases scan : expandScan s with
      | plain =>
          rw [expandText_plain refer [] s scan]
          exact ⟨state.stack, state.top - 1, .single (expandBody_plain holds scan), holds.pop⟩
      | dollars head rest =>
          obtain ⟨text, shorter⟩ := expandText_dollars refer [] s scan
          obtain ⟨stack, turn, holds'⟩ := expandBody_dollars holds scan
          rw [text]
          exact Follows.turn turn rfl (ih rest.length shorter rest _ holds' rfl)
      | reference head name tail =>
          obtain ⟨text, shorter⟩ := expandText_reference refer [] s scan
          rw [text, ← Emission.andThen_assoc]
          exact (meets state s below head name tail holds size scan).andThen
            fun stack top holds' => ih tail.length shorter tail ⟨stack, top, _⟩ holds' rfl

variable (global env path) in
/-- The loop does what the recursive expander says at every depth. -/
theorem follows_recursive (levels : Nat) (s : S8) (state : ExpandState) (below : List S8)
    (holds : Holds state.stack state.top (s :: below)) (size : below.length + levels = 127) :
    Follows global env path state below (expandRecursive (lookup global env) levels s) := by
  induction levels generalizing s state below with
  | zero =>
      refine follows_text 127 ?_ s state below holds size
      intro state s below head name tail holds full scan
      exact ⟨[], by simp, ⟨state, .refl, by
        rw [List.append_nil]
        exact expandBody_tooDeep holds scan full⟩⟩
  | succ levels ih =>
      refine follows_text (126 - levels) ?_ s state below holds (by omega)
      intro state s below head name tail holds depth scan
      obtain ⟨missing, found⟩ := expandBody_reference global env path holds scan
        (by omega)
      cases value : lookup global env name with
      | none => exact ⟨state, .refl, by simpa using missing value⟩
      | some text =>
          obtain ⟨stack, turn, holds'⟩ := found text value
          exact Follows.turn turn rfl (ih text _ (tail :: below) holds' (by
            rw [List.length_cons]
            omega))

/-- The first string is alone on the stack. -/
theorem expandStart_holds (str : S8) : Holds (expandStart str).stack (expandStart str).top [str] :=
  (Holds.empty (Vector.replicate 128 [])).push
    (show write _ _ _ = some (expandStart str).stack from rfl)

/-- The outcome of the loop as the recursive expander gives it. -/
def Expansion.outcome (path : S8) (expansion : Expansion) : Expanded :=
  match expansion.stop with
  | none => ⟨expansion.written, none⟩
  | some (.undefined name) => ⟨expansion.written, some (.fail (.undefinedVariable name path))⟩
  | some (.tooDeep run) =>
      ⟨expansion.written.take (expansion.written.length - run.length),
        some (.fail (.maxRecursionIn path))⟩

/-- The loop ends for every string and every two environments. -/
theorem expandBody_ends (global env : Env) (path str : S8) :
    Ends (expandBody global env path) (expandStart str)
      ((expandRecursive (lookup global env) 127 str).outcome path) := by
  have follows := follows_recursive global env path 127 str
    (expandStart str) [] (expandStart_holds str) rfl
  generalize expandRecursive (lookup global env) 127 str = expansion at follows ⊢
  obtain ⟨written, failure⟩ := expansion
  cases failure with
  | none =>
      obtain ⟨stack, top, runs, holds⟩ := follows
      refine ⟨_, runs, ?_⟩
      have empty := holds.nil_iff.mp rfl
      simp only [expandBody, if_pos empty]
      rfl
  | some failure =>
      cases failure with
      | undefined name => exact follows
      | tooDeep run =>
          obtain ⟨early, same, ends⟩ := follows
          dsimp only at same
          subst same
          have kept : (early ++ run).take ((early ++ run).length - run.length) = early := by simp
          simp only [Expansion.outcome, kept]
          exact ends

end UConfig
