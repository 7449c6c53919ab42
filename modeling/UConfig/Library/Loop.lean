/-
This file runs a loop body until the body leaves with a result.
-/

import Mathlib.Logic.Relation
import Mathlib.Order.Basic
import Mathlib.Data.Nat.Find

namespace Loop

variable {State Result : Type*}

/-- One turn of the loop goes on with a new state. -/
def Turn (body : State → State ⊕ Result) (state next : State) : Prop :=
  body state = .inl next

/-- A run is any number of turns. -/
abbrev Runs (body : State → State ⊕ Result) : State → State → Prop :=
  Relation.ReflTransGen (Turn body)

/-- The loop ends when a run reaches a state whose body leaves. -/
def Ends (body : State → State ⊕ Result) (state : State) (result : Result) : Prop :=
  ∃ last, Runs body state last ∧ body last = .inr result

/-- The fuel bounds the number of times the body is entered. -/
def run (body : State → State ⊕ Result) : Nat → State → Option Result
  | 0, _ => none
  | fuel + 1, state =>
      match body state with
      | .inl next => run body fuel next
      | .inr result => some result

/-- A turn that goes on uses up one unit of fuel. -/
theorem run_succ_inl {body : State → State ⊕ Result} {state next : State}
    (turn : body state = .inl next) (fuel : Nat) :
    run body (fuel + 1) state = run body fuel next := by
  simp only [run, turn]

/-- A turn that leaves ends the run with its result. -/
theorem run_succ_inr {body : State → State ⊕ Result} {state : State} {result : Result}
    (leaves : body state = .inr result) (fuel : Nat) :
    run body (fuel + 1) state = some result := by
  simp only [run, leaves]

/-- A bounded run that returns is a run that ends. -/
theorem ends_of_run {body : State → State ⊕ Result} {fuel : Nat} {state : State}
    {result : Result} (returned : run body fuel state = some result) :
    Ends body state result := by
  induction fuel generalizing state with
  | zero => simp [run] at returned
  | succ fuel ih =>
      cases turn : body state with
      | inl next =>
          rw [run_succ_inl turn] at returned
          obtain ⟨last, runs, leaves⟩ := ih returned
          exact ⟨last, runs.head turn, leaves⟩
      | inr value =>
          rw [run_succ_inr turn] at returned
          cases returned
          exact ⟨state, .refl, turn⟩

/-- A run that ends returns for some fuel. -/
theorem run_of_ends {body : State → State ⊕ Result} {state : State} {result : Result}
    (ends : Ends body state result) : ∃ fuel, run body fuel state = some result := by
  obtain ⟨last, runs, leaves⟩ := ends
  induction runs using Relation.ReflTransGen.head_induction_on with
  | refl => exact ⟨1, run_succ_inr leaves 0⟩
  | head turn _ ih =>
      obtain ⟨fuel, returned⟩ := ih
      exact ⟨fuel + 1, (run_succ_inl turn fuel).trans returned⟩

/-- More fuel does not change a result. -/
theorem run_mono {body : State → State ⊕ Result} {fuel more : Nat} {state : State}
    {result : Result} (enough : fuel ≤ more) (returned : run body fuel state = some result) :
    run body more state = some result := by
  induction fuel generalizing state more with
  | zero => simp [run] at returned
  | succ fuel ih =>
      obtain ⟨more, rfl⟩ : ∃ rest, more = rest + 1 := ⟨more - 1, by omega⟩
      cases turn : body state with
      | inl next =>
          rw [run_succ_inl turn] at returned ⊢
          exact ih (by omega) returned
      | inr value =>
          rw [run_succ_inr turn] at returned ⊢
          exact returned

/-- A bounded computation keeps its result when its bound grows. -/
def Grows (compute : Nat → Option Result) : Prop :=
  ∀ fuel more result, fuel ≤ more → compute fuel = some result → compute more = some result

/-- More fuel does not change a result of a loop. -/
theorem grows_run (body : State → State ⊕ Result) (state : State) :
    Grows fun fuel => run body fuel state := by
  intro fuel more result enough returned
  exact run_mono enough returned

/-- A computation whose bound may grow has at most one result. -/
theorem Grows.unique {compute : Nat → Option Result} (grows : Grows compute) {fuel other : Nat}
    {first second : Result} (returned : compute fuel = some first)
    (returned' : compute other = some second) : first = second := by
  have left := grows _ _ _ (Nat.le_max_left fuel other) returned
  have right := grows _ _ _ (Nat.le_max_right fuel other) returned'
  exact Option.some.inj (left.symm.trans right)

/-- What does not use fuel does not change with it. -/
theorem grows_const (result : Option Result) : Grows fun _ => result :=
  fun _ _ _ _ returned => returned

/-- A computation may go on with the result of another one. -/
theorem Grows.bind {Value : Type*} {first : Nat → Option Result}
    {second : Nat → Result → Option Value} (grows : Grows first)
    (grows' : ∀ result, Grows fun fuel => second fuel result) :
    Grows fun fuel => (first fuel).bind (second fuel) := by
  intro fuel more value enough returned
  obtain ⟨result, early, late⟩ := Option.bind_eq_some_iff.mp returned
  have early' := grows _ _ _ enough early
  exact Option.bind_eq_some_iff.mpr ⟨result, early', grows' result _ _ _ enough late⟩

/-- Two bounds for the parts of a computation give one bound for the whole. -/
theorem Grows.exists_bind {Value : Type*} {first : Nat → Option Result}
    {second : Nat → Result → Option Value} (grows : Grows first)
    (grows' : ∀ result, Grows fun fuel => second fuel result) (value : Value) :
    (∃ fuel, (first fuel).bind (second fuel) = some value) ↔
      ∃ result, (∃ fuel, first fuel = some result) ∧ ∃ fuel, second fuel result = some value := by
  constructor
  · rintro ⟨fuel, returned⟩
    obtain ⟨result, early, late⟩ := Option.bind_eq_some_iff.mp returned
    exact ⟨result, ⟨fuel, early⟩, fuel, late⟩
  · rintro ⟨result, ⟨fuel, early⟩, other, late⟩
    have early' := grows _ _ _ (Nat.le_max_left fuel other) early
    have late' := grows' result _ _ _ (Nat.le_max_right fuel other) late
    exact ⟨max fuel other, Option.bind_eq_some_iff.mpr ⟨result, early', late'⟩⟩

/-- A loop ends with at most one result. -/
theorem Ends.unique {body : State → State ⊕ Result} {state : State} {first second : Result}
    (ends : Ends body state first) (ends' : Ends body state second) : first = second := by
  obtain ⟨fuel, returned⟩ := run_of_ends ends
  obtain ⟨fuel', returned'⟩ := run_of_ends ends'
  have left := run_mono (Nat.le_max_left fuel fuel') returned
  have right := run_mono (Nat.le_max_right fuel fuel') returned'
  exact Option.some.inj (left.symm.trans right)

/-- A loop continues after any run of it. -/
theorem Ends.after {body : State → State ⊕ Result} {state next : State} {result : Result}
    (runs : Runs body state next) (ends : Ends body next result) : Ends body state result := by
  obtain ⟨last, rest, leaves⟩ := ends
  exact ⟨last, runs.trans rest, leaves⟩

/-- A run that cannot go on contains every run from the same state. -/
theorem Runs.until {body : State → State ⊕ Result} {state middle last : State} {result : Result}
    (runs : Runs body state middle) (whole : Runs body state last)
    (leaves : body last = .inr result) : Runs body middle last := by
  induction runs with
  | refl => exact whole
  | tail _ turn ih =>
      cases Relation.ReflTransGen.cases_head ih with
      | inl same =>
          rw [Turn, same, leaves] at turn
          cases turn
      | inr more =>
          obtain ⟨next, turn', rest⟩ := more
          rw [Turn] at turn turn'
          rw [turn] at turn'
          cases turn'
          exact rest

/-- A property that every turn preserves holds after every run. -/
theorem Runs.invariant {body : State → State ⊕ Result} {Inv : State → Prop}
    (preserved : ∀ state next, Inv state → body state = .inl next → Inv next)
    {state last : State} (start : Inv state) (runs : Runs body state last) : Inv last := by
  induction runs with
  | refl => exact start
  | tail _ turn ih => exact preserved _ _ ih turn

/-- A loop whose turns decrease a measure ends. -/
theorem exists_ends {body : State → State ⊕ Result} (measure : State → Nat)
    (decreases : ∀ state next, body state = .inl next → measure next < measure state)
    (state : State) : ∃ result, Ends body state result := by
  induction same : measure state using Nat.strongRecOn generalizing state with
  | ind size ih =>
      cases turn : body state with
      | inl next =>
          have smaller : measure next < size := same ▸ decreases state next turn
          obtain ⟨result, ends⟩ := ih _ smaller next rfl
          exact ⟨result, ends.after (.single turn)⟩
      | inr result => exact ⟨result, state, .refl, turn⟩

/-- The loop halts when it ends with some result. -/
def Halts (body : State → State ⊕ Result) (state : State) : Prop :=
  ∃ fuel, (run body fuel state).isSome

/-- A loop that ends halts. -/
theorem Ends.halts {body : State → State ⊕ Result} {state : State} {result : Result}
    (ends : Ends body state result) : Halts body state := by
  obtain ⟨fuel, returned⟩ := run_of_ends ends
  exact ⟨fuel, by rw [returned]; rfl⟩

/-- A loop that halts has a result without any bound on its turns. -/
def result (body : State → State ⊕ Result) (state : State) (halts : Halts body state) : Result :=
  (run body (Nat.find halts) state).get (Nat.find_spec halts)

/-- A loop that halts ends with its unbounded result. -/
theorem result_ends (body : State → State ⊕ Result) (state : State)
    (halts : Halts body state) : Ends body state (result body state halts) :=
  ends_of_run (Option.some_get (Nat.find_spec halts)).symm

/-- The unbounded result is the one that the loop ends with. -/
theorem result_eq {body : State → State ⊕ Result} {state : State} {value : Result}
    (ends : Ends body state value) (halts : Halts body state) :
    result body state halts = value :=
  (result_ends body state halts).unique ends

end Loop
