/-
This file proves when options stay in front of their detached operands.
-/

import UConfig.Proof.Fields.Dedup

namespace UConfig

def framework : S8 := S "-framework"

/-- An input is a single argument or an option with a detached operand, which is no option. -/
inductive ArgItem where
  | single (arg : S8)
  | pair (operand : S8) (plain : startsWith operand (S "-") = false)

def ArgItem.args : ArgItem → List S8
  | single arg => [arg]
  | pair operand _ => [framework, operand]

def itemArgs (items : List ArgItem) : List S8 := items.flatMap ArgItem.args

/-- A pair of the input is printed as it is: its operand stands behind the option, the two words stand
next to each other in the output, and the option is not removed while its operand stays. -/
structure PairPrinted (printed : List (S8 × Nat)) (operand : S8) (position : Nat) : Prop where
  preceded : ∀ front back, printed = front ++ (operand, position + 1) :: back →
    ∃ front' i, front = front' ++ [(framework, i)]
  adjacent : [framework, operand] <:+: printed.map Prod.fst
  together : (operand, position + 1) ∈ printed → (framework, position) ∈ printed

/-- All pairs of the input are printed as they are. -/
def KeepsOperands (excluded : Excluded) (items : List ArgItem) : Prop :=
  ∀ before operand plain after, items = before ++ .pair operand plain :: after →
    PairPrinted (printedArgs (excluded.start.appendArgs (itemArgs items))) operand
      (itemArgs before).length

/-- The option does not occur before the pair. -/
def FirstUse (items : List ArgItem) : Prop :=
  ∀ before operand plain after, items = before ++ .pair operand plain :: after →
    framework ∉ itemArgs before

/-- A repeated framework flag can be left out. -/
theorem framework_dedupable : dedupable framework = true := by decide +kernel

/-- The framework flag is no library. -/
theorem framework_notLibrary : startsWith framework (S "-l") = false := by decide +kernel

/-- The framework flag is never excluded. -/
theorem framework_notExcluded (excluded : Excluded) : framework ∉ excluded.args := by
  intro member
  have flagged := excluded.flagged _ member
  revert flagged
  decide +kernel

/-- Only options are repeatable. -/
theorem dedupable_option {arg : S8} (repeatable : dedupable arg = true) :
    startsWith arg (S "-") = true := by
  unfold dedupable at repeatable
  split at repeatable
  case isTrue => cases repeatable
  case isFalse long =>
    rw [not_or, not_not] at long
    obtain ⟨rest, rfl⟩ := List.head?_eq_some_iff.mp long.2
    simp [startsWith, S]

/-- An operand without a dash is never excluded. -/
theorem operand_notExcluded (excluded : Excluded) {operand : S8}
    (plain : startsWith operand (S "-") = false) : operand ∉ excluded.args := by
  intro member
  have isOption : ∀ flag : S8, startsWith operand ('-'.toUInt8 :: flag) = true →
      startsWith operand (S "-") = true := by
    intro flag starts
    rw [startsWith, List.isPrefixOf_iff_prefix] at starts ⊢
    exact (List.prefix_append (S "-") flag).trans starts
  rcases excluded.flagged operand member with flagged | flagged
  · rw [isOption (S "I") flagged] at plain
    cases plain
  · rw [isOption (S "L") flagged] at plain
    cases plain

/-- An operand is always printed. -/
theorem keptAt_operand (excluded : Excluded) (args : List S8) {operand : S8}
    (plain : startsWith operand (S "-") = false) (i : Nat) : KeptAt excluded args operand i := by
  refine ⟨operand_notExcluded excluded plain, fun repeatable => ?_⟩
  rw [dedupable_option repeatable] at plain
  cases plain

/-- The option of a pair is printed exactly when it has not occurred before. -/
theorem keptAt_framework (excluded : Excluded) (args : List S8) (i : Nat) :
    KeptAt excluded args framework i ↔ framework ∉ args.take i := by
  simp [KeptAt, framework_dedupable, framework_notLibrary, framework_notExcluded]

/-- A pair gives the flag and its operand. -/
theorem itemArgs_pair (before after : List ArgItem) {operand : S8}
    (plain : startsWith operand (S "-") = false) :
    itemArgs (before ++ .pair operand plain :: after) =
      itemArgs before ++ framework :: operand :: itemArgs after := by
  simp [itemArgs, ArgItem.args]

/-- The pair is where the kept arguments split when its option is kept. -/
theorem keptArgs_pair {excluded : Excluded} {front back : List S8} {operand : S8}
    (plain : startsWith operand (S "-") = false) (fresh : framework ∉ front) :
    ∃ kept kept', keptArgs excluded (front ++ framework :: operand :: back) =
      kept ++ (framework, front.length) :: (operand, front.length + 1) :: kept' := by
  have isKept : KeptAt excluded (front ++ framework :: operand :: back) framework front.length := by
    rw [keptAt_framework, List.take_left']
    · exact fresh
    · rfl
  have isKept' := keptAt_operand excluded (front ++ framework :: operand :: back) plain
    (front.length + 1)
  rw [keptArgs, List.zipIdx_append, List.filter_append, List.zipIdx_cons, List.zipIdx_cons,
    List.filter_cons, List.filter_cons]
  simp only [Nat.zero_add, isKept, isKept', decide_true, if_true]
  exact ⟨_, _, rfl⟩

/-- A pair is printed as it is exactly when its option has not occurred before. -/
theorem pairPrinted_iff {excluded : Excluded} {front back : List S8} {operand : S8}
    (plain : startsWith operand (S "-") = false) :
    PairPrinted (keptArgs excluded (front ++ framework :: operand :: back)) operand front.length ↔
      framework ∉ front := by
  constructor
  · intro printed
    have isKept := printed.together (mem_keptArgs.mpr ⟨by simp, keptAt_operand _ _ plain _⟩)
    have first := (keptAt_framework _ _ _).mp (mem_keptArgs.mp isKept).2
    rwa [List.take_left'] at first
    rfl
  · intro fresh
    have nodup := keptArgs_nodup excluded (front ++ framework :: operand :: back)
    obtain ⟨kept, kept', split⟩ := keptArgs_pair plain fresh
    rw [split] at nodup ⊢
    constructor
    · intro front' back' shape
      have shape : (kept ++ [(framework, front.length)]) ++ (operand, front.length + 1) :: kept' =
          front' ++ (operand, front.length + 1) :: back' := by
        rw [← shape, List.append_assoc]
        rfl
      have nodup' : ((kept ++ [(framework, front.length)]) ++
          (operand, front.length + 1) :: kept').Nodup := by
        rwa [List.append_assoc, List.singleton_append]
      rw [List.nodup_middle, List.nodup_cons, List.mem_append, not_or] at nodup'
      obtain ⟨same, _⟩ := (List.append_cons_inj_of_notMem nodup'.1.1 nodup'.1.2).mp shape
      exact ⟨kept, front.length, same.symm⟩
    · rw [List.map_append]
      exact ⟨kept.map Prod.fst, kept'.map Prod.fst, by simp⟩
    · intro _
      simp

/-- In the printed sequence options stay in front of their detached operands exactly when each pair
is the first use of its option. -/
theorem writeArgs_pairs (excluded : Excluded) (items : List ArgItem) :
    (∀ format output,
      let printed := (printedArgs (excluded.start.appendArgs (itemArgs items))).map Prod.fst
      writeArgs format (excluded.start.appendArgs (itemArgs items)) output =
        ⟨output.argCount + printed.length,
          output.out ++ format.added output.argCount printed⟩) ∧
    (KeepsOperands excluded items ↔ FirstUse items) := by
  refine ⟨fun format output => writeArgs_text format _ output, ?_⟩
  unfold KeepsOperands FirstUse
  rw [printedArgs_start]
  refine forall_congr' fun before => forall_congr' fun operand => forall_congr' fun plain =>
    forall_congr' fun after => imp_congr_right fun shape => ?_
  rw [shape, itemArgs_pair]
  exact pairPrinted_iff plain

def twoFrameworks : List ArgItem :=
  [.pair (S "Cocoa") (by decide), .pair (S "OpenGL") (by decide)]

/-- The option of a second pair is removed, and its operand stays. -/
theorem pair_loses_option : ¬ ∀ excluded items, KeepsOperands excluded items := by
  intro always
  have printed := always noneExcluded twoFrameworks [.pair (S "Cocoa") (by decide)] (S "OpenGL")
    (by decide) [] rfl
  have removed := printed.adjacent
  revert removed
  decide +kernel

end UConfig
