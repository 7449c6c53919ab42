/-
This file proves which directories survive from the path of a package file to a flag.
-/

import UConfig.Proof.Dequote.OneWord
import UConfig.Proof.Process.Load

namespace UConfig

/-- The path of a package file below a prefix. -/
def pathBelow (dir : S8) : S8 := dir ++ S "/lib/pkgconfig/x.pc"

/-- The directory of such a file is two levels below its prefix. -/
theorem dirname_pathBelow (dir : S8) : dirname (pathBelow dir) = dir ++ S "/lib/pkgconfig" := by
  have split : pathBelow dir = (dir ++ S "/lib/pkgconfig") ++ '/'.toUInt8 :: S "x.pc" := by
    rw [pathBelow, List.append_assoc]
    rfl
  rw [split]
  exact dirname_append _ _ (by decide) (by decide +kernel)

/-- The directory of the file is in a directory of the prefix, and it has the usual name. -/
theorem prefix_pathBelow (dir : S8) :
    dirname (dirname (dirname (pathBelow dir))) = dir ∧
      basename (dirname (pathBelow dir)) = S "pkgconfig" := by
  have outer : dir ++ S "/lib/pkgconfig" = (dir ++ S "/lib") ++ '/'.toUInt8 :: S "pkgconfig" := by
    rw [List.append_assoc]
    rfl
  have inner : dir ++ S "/lib" = dir ++ '/'.toUInt8 :: S "lib" := rfl
  rw [dirname_pathBelow, outer]
  constructor
  · rw [dirname_append _ _ (by decide) (by decide +kernel), inner]
    exact dirname_append _ _ (by decide) (by decide +kernel)
  · exact basename_append _ _ (by decide) (by decide +kernel)

/-- The prefix of a package in the usual directory is the encoded directory above. -/
theorem setPrefix_find {p : Pkg} {dir : S8} (path : p.path = pathBelow dir) :
    (setPrefix p).env.find (S "prefix") = some (some (dir.map pathEncode)) := by
  obtain ⟨above, usual⟩ := prefix_pathBelow dir
  rw [setPrefix, path, usual, if_pos rfl, above]
  dsimp only
  rw [s8PathEncode_eq_map]
  exact (Env.find_assign ..).trans (if_pos rfl)

/-- An encoded path never starts a reference. -/
theorem dollar_not_mem_encoded (path : S8) : '$'.toUInt8 ∉ path.map pathEncode := by
  intro member
  obtain ⟨c, _, same⟩ := List.mem_map.mp member
  exact (pathEncode_inert c).2 same

/-- Decoding takes the encoding of a path back. -/
theorem map_pathDecode_encoded {path : S8} (noEncoding : ∀ c ∈ path, encodingByte c = false) :
    (path.map pathEncode).map pathDecode = path := by
  rw [List.map_map]
  apply (List.map_congr_left fun c member => ?_).trans (List.map_id path)
  exact pathDecode_pathEncode c (noEncoding c member)

/-- The code of a byte is a quote when the byte is one. -/
theorem isQuote_pathEncode : ∀ c, isQuote (pathEncode c) = isQuote c :=
  forall_byte (by decide +kernel)

def prefixFlag : S8 := S "-I$\x7bprefix\x7d/include"

/-- The flag with the prefix is written with the directory in its encoded form. -/
theorem expandField_prefixFlag {global : Env} {p : Pkg} {f : Field} {dir : S8}
    (path : p.path = pathBelow dir) (text : p.field f = some prefixFlag)
    (unbound : global.find (S "prefix") = none) :
    expandField global (setPrefix p) f =
      .ok (S "-I" ++ (dir.map pathEncode ++ S "/include")) := by
  have scan : expandScan prefixFlag = .reference (S "-I") (S "prefix") (S "/include") := by
    with_unfolding_all rfl
  have found : lookup global (setPrefix p).env (S "prefix") = some (dir.map pathEncode) := by
    rw [lookup, unbound, setPrefix_find path]
    rfl
  rw [expandField, (setPrefix_kept p).2.2.2, text, Option.getD_some,
    expand_reference _ scan found (dollar_not_mem_encoded dir) (by decide)]

/-- The written flag has no whitespace, and its quotes are those of the directory. -/
theorem prefixFlag_bare {dir : S8} (noQuotes : ∀ c ∈ dir, isQuote c = false) :
    ∀ c ∈ S "-I" ++ (dir.map pathEncode ++ S "/include"),
      whitespace c = false ∧ isQuote c = false := by
  have literal : ∀ c ∈ S "-I" ++ S "/include", whitespace c = false ∧ isQuote c = false := by
    decide +kernel
  intro c member
  simp only [List.mem_append, List.mem_map] at member literal
  rcases member with flag | ⟨b, member, rfl⟩ | rest
  · exact literal c (.inl flag)
  · rw [isQuote_pathEncode]
    exact ⟨(pathEncode_inert b).1, noQuotes b member⟩
  · exact literal c (.inr rest)

/-- The flag of a prefix comes back decoded. -/
theorem prefixFlag_decoded {dir : S8} (noEncoding : ∀ c ∈ dir, encodingByte c = false) :
    (S "-I" ++ (dir.map pathEncode ++ S "/include")).map pathDecode =
      S "-I" ++ dir ++ S "/include" := by
  rw [List.map_append, List.map_append, map_pathDecode_encoded noEncoding, ← List.append_assoc]
  rfl

/-- A text without quotes has neither of them. -/
theorem isQuote_false_iff {s : S8} :
    (∀ c ∈ s, isQuote c = false) ↔ '\''.toUInt8 ∉ s ∧ '\"'.toUInt8 ∉ s := by
  constructor
  · intro plain
    constructor
    · intro member
      exact absurd (plain _ member) (by decide)
    · intro member
      exact absurd (plain _ member) (by decide)
  · intro absent c member
    rw [isQuote, Bool.or_eq_false_iff, beq_eq_false_iff_ne, beq_eq_false_iff_ne]
    constructor
    · rintro rfl
      exact absent.1 member
    · rintro rfl
      exact absent.2 member

/-- The flag with the prefix is one argument, which stands for the directory as it is. -/
def PrefixSurvives (global : Env) (p : Pkg) (f : Field) (dir : S8) : Prop :=
  ∃ written, expandField global (setPrefix p) f = .ok written ∧
    DequotesTo written (S "-I" ++ dir ++ S "/include")

/-- A prefix survives in a flag exactly when it has no quotes. -/
theorem prefix_survives {global : Env} {p : Pkg} {f : Field} {dir : S8}
    (path : p.path = pathBelow dir) (text : p.field f = some prefixFlag)
    (unbound : global.find (S "prefix") = none)
    (noEncoding : ∀ c ∈ dir, encodingByte c = false) :
    PrefixSurvives global p f dir ↔ '\''.toUInt8 ∉ dir ∧ '\"'.toUInt8 ∉ dir := by
  have expanded := expandField_prefixFlag path text unbound
  rw [← isQuote_false_iff]
  constructor
  · intro survives
    obtain ⟨written, isWritten, dequotes⟩ := survives
    rw [expanded] at isWritten
    cases isWritten
    have nonblank : ∃ c ∈ S "-I" ++ (dir.map pathEncode ++ S "/include"), whitespace c = false :=
      ⟨'-'.toUInt8, List.mem_cons_self, by decide⟩
    have quoteFree := dequotes.quote_free nonblank (by simp)
    intro c member
    rw [← isQuote_pathEncode]
    apply quoteFree
    simp only [List.mem_append, List.mem_map]
    exact .inr (.inl ⟨c, member, rfl⟩)
  · intro noQuotes
    refine ⟨_, expanded, ?_⟩
    rw [← prefixFlag_decoded noEncoding]
    exact dequotesTo_bare (List.cons_ne_nil '-'.toUInt8 _) (prefixFlag_bare noQuotes)

/-- A package file with only the flag. -/
def flagPkg (dir : S8) : Pkg :=
  { Pkg.zero.setField .cflags (some prefixFlag) with path := pathBelow dir }

/-- A prefix with blanks, a dollar and a backslash survives. -/
theorem prefix_survives_spaces :
    PrefixSurvives .empty (flagPkg (S "/my $(dir)\\")) .cflags (S "/my $(dir)\\") ↔
      '\''.toUInt8 ∉ S "/my $(dir)\\" ∧ '\"'.toUInt8 ∉ S "/my $(dir)\\" :=
  prefix_survives rfl rfl rfl (by decide +kernel)

/-- A quote in the path of a package is taken for a quote of the field. -/
theorem prefix_loses_quote : ¬ ∀ (global : Env) (p : Pkg) (f : Field) (dir : S8),
    p.path = pathBelow dir → p.field f = some prefixFlag → global.find (S "prefix") = none →
    (∀ c ∈ dir, encodingByte c = false) → 0 ∉ dir → PrefixSurvives global p f dir := by
  intro always
  obtain ⟨written, isWritten, arg, denotes, read⟩ := always .empty (flagPkg (S "/home/o'brien"))
    .cflags (S "/home/o'brien") rfl rfl rfl (by decide +kernel) (by decide)
  rw [expandField_prefixFlag rfl rfl rfl] at isWritten
  cases isWritten
  have closed : true = (dequoteToken _).result.ok :=
    congrArg Dequoted.ok (read.unique (dequotesAs_token _))
  revert closed
  decide +kernel

end UConfig
