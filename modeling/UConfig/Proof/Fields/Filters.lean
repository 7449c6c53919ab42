/-
This file proves that the output under a filter is a part of the whole output.
-/

import UConfig.Proof.Dequote.FieldWords
import UConfig.Proof.Fields.Dedup

namespace UConfig

/-- A field of a package, with the name of its package for the error message. -/
structure FieldText where
  realname : S8
  field : S8

def appendFields (w : FieldWriter) (fields : List FieldText) : Except Stop FieldWriter :=
  fields.foldlM (fun w text => appendField w text.realname text.field) w

/-- The arguments that a writer with these excluded arguments prints for the fields. -/
def printedUnder (excluded : Excluded) (fields : List FieldText) (f : Filter) :
    Except Stop (List S8) :=
  (appendFields ⟨excluded.start, f⟩ fields).map fun w => (printedArgs w.args).map Prod.fst

/-- Is an argument kept that stands between these? -/
def keepsBetween (excluded : Excluded) (before after : List S8) (arg : S8) : Bool :=
  !excluded.args.contains arg && (!dedupable arg ||
    !(if startsWith arg (S "-l") then after else before).contains arg)

/-- The arguments that are kept behind the ones before. -/
def keptBehind (excluded : Excluded) (before : List S8) : List S8 → List S8
  | [] => []
  | arg :: after =>
      if keepsBetween excluded before after arg then
        arg :: keptBehind excluded (before ++ [arg]) after
      else keptBehind excluded (before ++ [arg]) after

/-- Whether an argument is kept depends on those before it and behind it. -/
theorem keptAt_between (excluded : Excluded) (before after : List S8) (arg : S8) :
    keptAt excluded (before ++ arg :: after) arg before.length =
      keepsBetween excluded before after arg := by
  have taken : (before ++ arg :: after).take before.length = before := List.take_left
  have dropped : (before ++ arg :: after).drop (before.length + 1) = after := by
    rw [List.drop_append]
    simp
  rw [keptAt, keepsBetween, taken, dropped]

/-- The kept arguments behind a list are those that the loop keeps. -/
theorem keptBehind_eq (excluded : Excluded) (before items : List S8) :
    (((items.zipIdx before.length).filter fun item =>
      KeptAt excluded (before ++ items) item.1 item.2).map Prod.fst) =
        keptBehind excluded before items := by
  induction items generalizing before with
  | nil => rfl
  | cons arg after ih =>
      have whole : before ++ arg :: after = before ++ [arg] ++ after := by simp
      have later := ih (before ++ [arg])
      rw [List.length_append, List.length_singleton, ← whole] at later
      rw [List.zipIdx_cons, List.filter_cons, keptBehind, ← later]
      have first : decide (KeptAt excluded (before ++ arg :: after) arg before.length) =
          keepsBetween excluded before after arg := by
        rw [← keptAt_between, Bool.eq_iff_iff, decide_eq_true_eq, keptAt_iff]
      dsimp only
      rw [first]
      split <;> rfl

/-- What is kept is decided by the arguments before and behind alone. -/
theorem keptArgs_eq (excluded : Excluded) (items : List S8) :
    (keptArgs excluded items).map Prod.fst = keptBehind excluded [] items :=
  keptBehind_eq excluded [] items

/-- A filter keeps what stands between other arguments that it keeps. -/
theorem keepsBetween_filter (excluded : Excluded) (passes : S8 → Bool) (before after : List S8)
    {arg : S8} (passed : passes arg = true) :
    keepsBetween excluded (before.filter passes) (after.filter passes) arg =
      keepsBetween excluded before after arg := by
  have same : ∀ items : List S8, (items.filter passes).contains arg = items.contains arg := by
    intro items
    rw [Bool.eq_iff_iff, List.contains_iff_mem, List.contains_iff_mem, List.mem_filter]
    exact and_iff_left passed
  unfold keepsBetween
  split <;> rw [same]

/-- Filtering before the arguments are numbered is filtering what is kept. -/
theorem keptBehind_filter (excluded : Excluded) (passes : S8 → Bool) (before items : List S8) :
    keptBehind excluded (before.filter passes) (items.filter passes) =
      (keptBehind excluded before items).filter passes := by
  induction items generalizing before with
  | nil => rfl
  | cons arg after ih =>
      have later := ih (before ++ [arg])
      rw [List.filter_append] at later
      by_cases passed : passes arg = true
      · rw [List.filter_singleton, passed] at later
        rw [List.filter_cons_of_pos passed, keptBehind, keptBehind,
          keepsBetween_filter excluded passes before after passed]
        split
        case isTrue => 
          rw [List.filter_cons_of_pos passed, ← later]
          rfl
        case isFalse => exact later
      · rw [List.filter_cons_of_neg passed, keptBehind]
        rw [List.filter_cons_of_neg passed, List.filter_nil, List.append_nil] at later
        split
        case isTrue => rw [List.filter_cons_of_neg passed, later]
        case isFalse => exact later

/-- A field appends the same arguments under every filter, up to the ones that are left out. -/
theorem appendField_items (realname field : S8) :
    (∀ f args, appendField ⟨args, f⟩ realname field =
      .error (.fail (.unmatchedQuote realname))) ∨
    ∃ items : List S8, ∀ f args, appendField ⟨args, f⟩ realname field =
      .ok ⟨args.appendArgs (items.filter (filterOk f)), f⟩ := by
  induction size : field.length using Nat.strong_induction_on generalizing field with
  | _ size ih =>
      subst size
      by_cases empty : field = []
      · right
        refine ⟨[], fun f args => ?_⟩
        rw [appendField, if_pos empty]
        rfl
      by_cases read : (dequoteToken field).result.ok = true
      · have turn := appendField_read empty read
        rcases ih _ (dequoteToken_tail_lt empty) _ rfl with failed | ⟨items, appended⟩
        · exact .inl fun f args => (turn f args realname).trans (failed f _)
        · right
          refine ⟨(dequoteToken field).result.arg :: items, fun f args => ?_⟩
          rw [turn, appended, ← appendArgs_append, ← List.filter_append, List.singleton_append]
      · exact .inl fun f args => appendField_failed empty read _ _

/-- The fields append the same arguments under every filter, up to the ones that are left out. -/
theorem appendFields_items (fields : List FieldText) :
    (∃ stop, ∀ f args, appendFields ⟨args, f⟩ fields = .error stop) ∨
    ∃ items : List S8, ∀ f args, appendFields ⟨args, f⟩ fields =
      .ok ⟨args.appendArgs (items.filter (filterOk f)), f⟩ := by
  induction fields with
  | nil => exact .inr ⟨[], fun _ _ => rfl⟩
  | cons text fields ih =>
      have turn : ∀ w, appendFields w (text :: fields) =
          appendField w text.realname text.field >>= fun w => appendFields w fields :=
        fun _ => List.foldlM_cons
      rcases appendField_items text.realname text.field with failed | ⟨first, appended⟩
      · left
        refine ⟨.fail (.unmatchedQuote text.realname), fun f args => ?_⟩
        rw [turn, failed]
        rfl
      · rcases ih with ⟨stop, failed⟩ | ⟨items, appended'⟩
        · left
          refine ⟨stop, fun f args => ?_⟩
          rw [turn, appended]
          exact failed f _
        · right
          refine ⟨first ++ items, fun f args => ?_⟩
          rw [turn, appended]
          change appendFields _ fields = _
          rw [appended', ← appendArgs_append, ← List.filter_append]

/-- What is printed is what is kept behind nothing. -/
theorem printedArgs_behind (excluded : Excluded) (items : List S8) :
    (printedArgs (excluded.start.appendArgs items)).map Prod.fst =
      keptBehind excluded [] items := by
  rw [printedArgs_start, keptArgs_eq]

/-- What is printed under a filter is what passes the filter of everything that is printed. -/
theorem printedUnder_filter (excluded : Excluded) (fields : List FieldText) (f : Filter) :
    printedUnder excluded fields f =
      (printedUnder excluded fields .any).map (List.filter (filterOk f)) := by
  rcases appendFields_items fields with ⟨stop, failed⟩ | ⟨items, appended⟩
  · rw [printedUnder, printedUnder, failed, failed]
    rfl
  · have printed : ∀ f, printedUnder excluded fields f =
        .ok (keptBehind excluded [] (items.filter (filterOk f))) := by
      intro f
      rw [printedUnder, appended]
      exact congrArg Except.ok (printedArgs_behind excluded _)
    have everything : items.filter (filterOk .any) = items :=
      List.filter_eq_self.mpr fun _ _ => rfl
    rw [printed, printed, everything]
    exact congrArg Except.ok (keptBehind_filter excluded (filterOk f) [] items)

/-- An argument passes exactly one of the filters of the compiler flags. -/
theorem filterOk_compiler (arg : S8) :
    ∃! f, f ∈ [Filter.I, .otherC] ∧ filterOk f arg = true := by
  refine ⟨if startsWith arg (S "-I") then .I else .otherC, ?_, ?_⟩
  · cases starts : startsWith arg (S "-I") <;> simp [filterOk, starts]
  · rintro f ⟨member, passes⟩
    simp only [List.mem_cons, List.not_mem_nil, or_false] at member
    rcases member with rfl | rfl
    · exact (if_pos passes).symm
    · rw [filterOk, Bool.not_eq_true'] at passes
      rw [passes]
      rfl

/-- An argument passes exactly one of the filters of the linker flags. -/
theorem filterOk_linker (arg : S8) :
    ∃! f, f ∈ [Filter.L, .l, .otherL] ∧ filterOk f arg = true := by
  refine ⟨if startsWith arg (S "-L") then .L else if startsWith arg (S "-l") then .l else .otherL,
    ?_, ?_⟩
  · cases path : startsWith arg (S "-L") <;> cases library : startsWith arg (S "-l") <;>
      simp [filterOk, path, library]
  · rintro f ⟨member, passes⟩
    simp only [List.mem_cons, List.not_mem_nil, or_false] at member
    rcases member with rfl | rfl | rfl
    · exact (if_pos passes).symm
    · have notPath : ¬startsWith arg (S "-L") = true := fun path =>
        absurd (startsWith_unique (by decide) passes path) (by decide)
      rw [if_neg notPath]
      exact (if_pos passes).symm
    · rw [filterOk, Bool.and_eq_true, Bool.not_eq_true', Bool.not_eq_true'] at passes
      rw [passes.1, passes.2]
      rfl

/-- A printed argument is printed under this filter. -/
def PrintedBy (excluded : Excluded) (fields : List FieldText) (f : Filter) (arg : S8) : Prop :=
  ∃ printed, printedUnder excluded fields f = .ok printed ∧ arg ∈ printed

/-- A filter prints what it lets through of all that is printed. -/
theorem printedBy_iff {excluded : Excluded} {fields : List FieldText} {printed : List S8}
    (everything : printedUnder excluded fields .any = .ok printed) (f : Filter) (arg : S8) :
    PrintedBy excluded fields f arg ↔ arg ∈ printed ∧ filterOk f arg = true := by
  have filtered := printedUnder_filter excluded fields f
  rw [everything] at filtered
  rw [PrintedBy, filtered, ← List.mem_filter]
  constructor
  · rintro ⟨_, ⟨⟩, member⟩
    exact member
  · exact fun member => ⟨_, rfl, member⟩

/-- Under a filter exactly those arguments are written that pass it, in the order of the whole
output, and every argument is written under exactly one filter of each kind. -/
theorem writeArgs_filter (excluded : Excluded) (fields : List FieldText) :
    (∀ f w format output, appendFields ⟨excluded.start, f⟩ fields = .ok w →
      ∃ printed, printedUnder excluded fields f = .ok printed ∧
        writeArgs format w.args output = ⟨output.argCount + printed.length,
          output.out ++ format.added output.argCount printed⟩) ∧
    (∀ f, printedUnder excluded fields f =
      (printedUnder excluded fields .any).map (List.filter (filterOk f))) ∧
    ∀ arg, PrintedBy excluded fields .any arg →
      (∃! f, f ∈ [Filter.I, .otherC] ∧ PrintedBy excluded fields f arg) ∧
      ∃! f, f ∈ [Filter.L, .l, .otherL] ∧ PrintedBy excluded fields f arg := by
  refine ⟨?_, printedUnder_filter excluded fields, ?_⟩
  · intro f w format output appended
    refine ⟨(printedArgs w.args).map Prod.fst, ?_, writeArgs_text format w.args output⟩
    rw [printedUnder, appended]
    rfl
  · rintro arg ⟨printed, everything, member⟩
    simp only [printedBy_iff everything, member, true_and]
    exact ⟨filterOk_compiler arg, filterOk_linker arg⟩

end UConfig
