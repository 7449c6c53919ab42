/-
This file proves what the arguments of many fields leave in the output, and in which order.
-/

import UConfig.Proof.Fields.Filters

namespace UConfig

/-- The arguments of a field, when no quote is left open. -/
def FieldText.args (text : FieldText) : Except Stop (List S8) :=
  (appendField ⟨.empty, .any⟩ text.realname text.field).map fun w => w.args.list

/-- The arguments of all fields, one field after the other. -/
def fieldsArgs : List FieldText → Except Stop (List S8)
  | [] => .ok []
  | text :: fields => do
      let items ← text.args
      let more ← fieldsArgs fields
      return items ++ more

/-- The first arguments are the whole list. -/
theorem appendArgs_items (items : List S8) : (Args.empty.appendArgs items).list = items := by
  rw [appendArgs_list]
  rfl

/-- The writer after these arguments have passed its filter. -/
def FieldWriter.take (w : FieldWriter) (items : List S8) : FieldWriter :=
  ⟨w.args.appendArgs (items.filter (filterOk w.filter)), w.filter⟩

/-- Two lists are taken as one. -/
theorem FieldWriter.take_take (w : FieldWriter) (first second : List S8) :
    (w.take first).take second = w.take (first ++ second) := by
  unfold take
  dsimp only
  rw [← appendArgs_append, ← List.filter_append]

/-- A writer appends the arguments of a field that pass its filter. -/
theorem appendField_args (w : FieldWriter) (text : FieldText) :
    appendField w text.realname text.field = text.args.map w.take := by
  obtain ⟨args, f⟩ := w
  rw [FieldText.args]
  rcases appendField_items text.realname text.field with failed | ⟨items, appended⟩
  · rw [failed, failed]
    rfl
  · have everything : items.filter (filterOk .any) = items :=
      List.filter_eq_self.mpr fun _ _ => rfl
    rw [appended, appended, everything]
    change _ = Except.ok ((FieldWriter.mk args f).take (Args.empty.appendArgs items).list)
    rw [appendArgs_items]
    rfl

/-- Fields append their arguments, or the first one that fails ends the program. -/
theorem appendFields_args (w : FieldWriter) (fields : List FieldText) :
    appendFields w fields = (fieldsArgs fields).map w.take := by
  induction fields generalizing w with
  | nil => rfl
  | cons text fields ih =>
      have turn : appendFields w (text :: fields) =
          appendField w text.realname text.field >>= fun w => appendFields w fields :=
        List.foldlM_cons
      rw [turn, appendField_args, fieldsArgs]
      cases text.args with
      | error stop => rfl
      | ok items =>
          change appendFields _ fields = _
          rw [ih]
          cases fieldsArgs fields with
          | error stop => rfl
          | ok more =>
              exact congrArg Except.ok (w.take_take items more)

/-- The arguments that are printed of all those that the fields give. -/
theorem printedUnder_args (excluded : Excluded) (fields : List FieldText) (f : Filter) :
    printedUnder excluded fields f = (fieldsArgs fields).map fun items =>
      keptBehind excluded [] (items.filter (filterOk f)) := by
  rw [printedUnder, appendFields_args]
  cases fieldsArgs fields with
  | error stop => rfl
  | ok items => exact congrArg Except.ok (printedArgs_behind excluded _)

/-- The arguments of all fields are those of the single ones. -/
theorem mem_fieldsArgs {fields : List FieldText} {items : List S8}
    (given : fieldsArgs fields = .ok items) (arg : S8) :
    arg ∈ items ↔ ∃ text ∈ fields, ∃ own, text.args = .ok own ∧ arg ∈ own := by
  induction fields generalizing items with
  | nil =>
      cases given
      simp
  | cons text fields ih =>
      rw [fieldsArgs] at given
      cases isOwn : text.args with
      | error stop =>
          rw [isOwn] at given
          cases given
      | ok own =>
          cases isMore : fieldsArgs fields with
          | error stop =>
              rw [isOwn, isMore] at given
              cases given
          | ok more =>
              rw [isOwn, isMore] at given
              cases given
              rw [List.mem_append, ih isMore, List.exists_mem_cons_iff, isOwn]
              simp

/-- Exactly the arguments that are not excluded are kept somewhere. -/
theorem mem_keptBehind (excluded : Excluded) (items : List S8) (arg : S8) :
    arg ∈ keptBehind excluded [] items ↔ arg ∈ items ∧ arg ∉ excluded.args := by
  rw [← keptArgs_eq, List.mem_map]
  constructor
  · rintro ⟨⟨other, i⟩, member, rfl⟩
    obtain ⟨isAt, kept⟩ := mem_keptArgs.mp member
    exact ⟨List.mem_of_getElem? isAt, kept.1⟩
  · rintro ⟨member, free⟩
    by_cases repeatable : dedupable arg = true
    · obtain ⟨i, isAt, kept, _⟩ :=
        ((positioned_start excluded).appendArgs items).kept arg free repeatable member
      exact ⟨(arg, i), mem_keptArgs.mpr ⟨isAt, kept⟩, rfl⟩
    · obtain ⟨i, isAt⟩ := List.mem_iff_getElem?.mp member
      exact ⟨(arg, i), mem_keptArgs.mpr ⟨isAt, free, fun isRepeatable =>
        absurd isRepeatable repeatable⟩, rfl⟩

/-- An argument that can be repeated is kept only once. -/
theorem count_keptBehind (excluded : Excluded) (items : List S8) {arg : S8}
    (repeatable : dedupable arg = true) : (keptBehind excluded [] items).count arg ≤ 1 := by
  by_cases kept : arg ∈ keptBehind excluded [] items
  · obtain ⟨member, free⟩ := (mem_keptBehind excluded items arg).mp kept
    rw [← keptArgs_eq]
    exact (count_keptArgs repeatable free member).le
  · rw [List.count_eq_zero_of_not_mem kept]
    exact Nat.zero_le 1

end UConfig
