/-
This file proves when a field adds the arguments of its words and nothing else.
-/

import UConfig.Proof.Dequote.FieldWords
import UConfig.Program.WriteArgs

namespace UConfig

/-- The field adds one argument for each of its words that pass the filter. -/
def AddsWords (f : Filter) (field : S8) (words : List Word) : Prop :=
  ∀ args realname, appendField ⟨args, f⟩ realname field =
    .ok ⟨args.appendArgs ((words.map Word.arg).filter (filterOk f)), f⟩

/-- An explicit empty word has quotes and nothing else. -/
def Word.Empty (word : Word) : Prop :=
  ∀ part ∈ word, part.text = S "''" ∨ part.text = S "\"\""

/-- Only a pair of quotes means nothing. -/
theorem Part.empty_of_meaning {part : Part} (empty : part.meaning = []) :
    part.text = S "''" ∨ part.text = S "\"\"" := by
  cases part with
  | bare c solid noSingle noDouble => cases empty
  | single text inside =>
      have nothing : text = [] := List.map_eq_nil_iff.mp empty
      subst nothing
      exact .inl rfl
  | double text inside =>
      have nothing : text = [] := List.map_eq_nil_iff.mp empty
      subst nothing
      exact .inr rfl

/-- Only an explicit empty word gives an empty argument. -/
theorem Word.empty_of_arg {word : Word} (empty : word.arg = []) : word.Empty := by
  have nothing := word.unescape_arg
  rw [empty] at nothing
  have parts : ∀ part ∈ word, part.meaning = [] := List.flatMap_eq_nil_iff.mp nothing.symm
  exact fun part member => Part.empty_of_meaning (parts part member)

/-- A field whose trailing whitespace adds nothing adds its words. -/
theorem addsWords_of_trailing {field : S8} {words : List Word} {trailing : S8}
    (fieldWords : FieldWords field words trailing) {f : Filter}
    (adds : trailing = [] ∨ filterOk f [] = false) : AddsWords f field words := by
  intro args realname
  rw [appendField_words fieldWords, List.filter_append]
  rcases adds with rfl | refused
  · rw [if_pos rfl, List.filter_nil, List.append_nil]
  · split
    · rw [List.filter_nil, List.append_nil]
    · rw [List.filter_cons_of_neg (by simp [refused]), List.filter_nil, List.append_nil]

/-- A field adds the arguments of its words and nothing else unless it ends in whitespace outside
of quotes and the filter lets an empty argument pass.
Fields of the same words then add the same, and an empty argument comes from an empty word. -/
theorem appendField_onlyWords {field : S8} {words : List Word} {trailing : S8}
    (fieldWords : FieldWords field words trailing) (f : Filter) :
    (AddsWords f field words ↔ trailing = [] ∨ filterOk f [] = false) ∧
    (∀ word ∈ words, unescape word.arg = word.meaning ∧ (word.arg = [] → word.Empty)) ∧
    ((trailing = [] ∨ filterOk f [] = false) →
      ∀ other trailing', FieldWords other words trailing' →
        (trailing' = [] ∨ filterOk f [] = false) → ∀ args realname,
          appendField ⟨args, f⟩ realname other = appendField ⟨args, f⟩ realname field) := by
  refine ⟨⟨?_, addsWords_of_trailing fieldWords⟩, ?_, ?_⟩
  · intro adds
    by_contra trails
    rw [not_or, Bool.not_eq_false] at trails
    have appended := adds .empty []
    rw [appendField_words fieldWords, List.filter_append, if_neg trails.1,
      List.filter_cons_of_pos trails.2] at appended
    simp only [Except.ok.injEq, FieldWriter.mk.injEq, and_true] at appended
    have lists := congrArg (fun args => args.list.length) appended
    simp only [appendArgs_list, List.length_append, List.length_cons] at lists
    omega
  · exact fun word _ => ⟨word.unescape_arg, Word.empty_of_arg⟩
  · intro adds other trailing' fieldWords' adds' args realname
    rw [addsWords_of_trailing fieldWords adds, addsWords_of_trailing fieldWords' adds']

/-- The empty argument behind a letter and a blank passes the filter. -/
theorem appendField_onlyWords_letter :
    AddsWords .any (S "a ") [letterWord] ↔ S " " = [] ∨ filterOk .any [] = false :=
  (appendField_onlyWords fieldWords_letter .any).1

/-- A space at the end of a field adds an empty argument, and a delimiter is printed for it. -/
theorem field_adds_empty : FieldWords (S "a ") [letterWord] (S " ") ∧
    (∀ realname, appendField ⟨.empty, .any⟩ realname (S "a ") =
      .ok ⟨Args.empty.appendArgs [S "a", []], .any⟩) ∧
    (writeArgs ⟨false, 0⟩ (Args.empty.appendArgs [S "a", []]) ⟨0, []⟩).out = S "a " := by
  refine ⟨fieldWords_letter, fun realname => ?_, by decide +kernel⟩
  rw [appendField_words fieldWords_letter]
  rfl

end UConfig
