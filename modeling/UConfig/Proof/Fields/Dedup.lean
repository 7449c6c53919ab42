/-
This file proves which of the appended arguments are printed.
-/

import UConfig.Proof.Components
import UConfig.Proof.Fields.Line
import Mathlib.Data.List.Nodup

namespace UConfig

/-- Arguments of system paths start with the flag of an include path or of a library path. -/
structure Excluded where
  args : List S8
  flagged : ∀ arg ∈ args, startsWith arg (S "-I") = true ∨ startsWith arg (S "-L") = true

def noneExcluded : Excluded := ⟨[], fun _ member => by cases member⟩

/-- The system paths are excluded before any argument is appended. -/
def Excluded.start (excluded : Excluded) : Args := excluded.args.foldl Args.excludeArg .empty

/-- An argument that can be repeated is kept at its first position, and a library at its last. -/
def KeptAt (excluded : Excluded) (items : List S8) (arg : S8) (position : Nat) : Prop :=
  arg ∉ excluded.args ∧ (dedupable arg = true →
    if startsWith arg (S "-l") = true then arg ∉ items.drop (position + 1)
    else arg ∉ items.take position)

/-- The test for a kept argument. -/
def keptAt (excluded : Excluded) (items : List S8) (arg : S8) (position : Nat) : Bool :=
  !excluded.args.contains arg && (!dedupable arg ||
    !(if startsWith arg (S "-l") then items.drop (position + 1) else items.take position).contains arg)

/-- The program decides what is kept. -/
theorem keptAt_iff (excluded : Excluded) (items : List S8) (arg : S8) (position : Nat) :
    keptAt excluded items arg position = true ↔ KeptAt excluded items arg position := by
  rw [keptAt, KeptAt]
  cases dedupable arg with
  | false => simp
  | true => cases startsWith arg (S "-l") <;> simp

instance (excluded : Excluded) (items : List S8) (arg : S8) (position : Nat) :
    Decidable (KeptAt excluded items arg position) :=
  decidable_of_iff _ (keptAt_iff excluded items arg position)

/-- The arguments that are kept, with their positions. -/
def keptArgs (excluded : Excluded) (items : List S8) : List (S8 × Nat) :=
  items.zipIdx.filter fun item => KeptAt excluded items item.1 item.2

/-- A position is set for one argument and no other. -/
theorem findArgPos_set (positions : HashTrie S8 Int) (arg other : S8) (n : Int) :
    findArgPos (HashTrie.modify (s8Hash arg) arg (fun _ => n)
      (HashTrie.insert (s8Hash arg) arg 0 positions)) other =
      if other = arg then some n else findArgPos positions other := by
  rw [findArgPos, HashTrie.find_modify, HashTrie.find_insert_self]
  by_cases same : other = arg
  · rw [if_pos same, if_pos same]
    rfl
  · rw [if_neg same, if_neg same, HashTrie.find_insert_of_ne _ _ same]
    rfl

/-- An excluded argument has the position minus one. -/
theorem findArgPos_excludeArg (args : Args) (arg other : S8) :
    findArgPos (args.excludeArg arg).positions other =
      if other = arg then some (-1) else findArgPos args.positions other :=
  findArgPos_set args.positions arg other (-1)

/-- The position that an argument has after it has been appended. -/
def nextPosition (args : Args) (arg : S8) : Int :=
  let n := (findArgPos args.positions arg).getD 0
  if n = 0 ∨ startsWith arg (S "-l") = true then 1 + (args.count : Int) else n

/-- Appending only changes the position of its own argument. -/
theorem findArgPos_appendArg (args : Args) (arg other : S8) :
    findArgPos (args.appendArg arg).positions other =
      if dedupable arg = true ∧ other = arg then some (nextPosition args arg)
      else findArgPos args.positions other := by
  have present : findArgPos (HashTrie.insert (s8Hash arg) arg 0 args.positions) arg =
      some ((findArgPos args.positions arg).getD 0) := HashTrie.find_insert_self ..
  unfold Args.appendArg
  dsimp only
  split
  case isFalse notRepeatable => rw [if_neg fun both => notRepeatable both.1]
  case isTrue repeatable =>
    rw [present, Option.getD_some, nextPosition]
    dsimp only
    by_cases moves : (findArgPos args.positions arg).getD 0 = 0 ∨ startsWith arg (S "-l") = true
    · rw [if_pos moves, if_pos moves, findArgPos_set]
      simp only [repeatable, true_and]
    · rw [if_neg moves, if_neg moves]
      by_cases same : other = arg
      · rw [if_pos ⟨repeatable, same⟩, same, present]
      · rw [if_neg fun both => same both.2]
        exact HashTrie.find_insert_of_ne _ _ same _ _

/-- A text starts with only one head of each length. -/
theorem startsWith_unique {arg first second : S8} (sameLength : first.length = second.length)
    (starts : startsWith arg first = true) (starts' : startsWith arg second = true) :
    first = second := by
  rw [startsWith, List.isPrefixOf_iff_prefix] at starts starts'
  exact (List.prefix_of_prefix_length_le starts starts' sameLength.le).eq_of_length sameLength

/-- An argument of a system path does not name a library. -/
theorem Excluded.not_library (excluded : Excluded) {arg : S8} (member : arg ∈ excluded.args) :
    startsWith arg (S "-l") = false := by
  by_contra library
  rw [Bool.not_eq_false] at library
  rcases excluded.flagged arg member with flagged | flagged
  · exact absurd (startsWith_unique (by decide) library flagged) (by decide)
  · exact absurd (startsWith_unique (by decide) library flagged) (by decide)

/-- Two positions at which the same argument is kept are the same. -/
theorem KeptAt.unique {excluded : Excluded} {items : List S8} {arg : S8} {i j : Nat}
    (repeatable : dedupable arg = true) (first : items[i]? = some arg)
    (second : items[j]? = some arg) (kept : KeptAt excluded items arg i)
    (kept' : KeptAt excluded items arg j) : i = j := by
  -- Of two positions, the smaller one is not the last one, and the larger one is not the first one.
  have ordered : ∀ a b : Nat, items[a]? = some arg → items[b]? = some arg →
      KeptAt excluded items arg a → KeptAt excluded items arg b → ¬ a < b := by
    intro a b atA atB keptA keptB less
    have onlyA := keptA.2 repeatable
    have onlyB := keptB.2 repeatable
    split at onlyA
    case isTrue library =>
      apply onlyA
      rw [List.mem_iff_getElem?]
      exact ⟨b - (a + 1), by rw [List.getElem?_drop]; simpa [show a + 1 + (b - (a + 1)) = b by omega]⟩
    case isFalse notLibrary =>
      rw [if_neg notLibrary] at onlyB
      apply onlyB
      rw [List.mem_iff_getElem?]
      exact ⟨a, by rw [List.getElem?_take_of_lt less]; exact atA⟩
  rcases Nat.lt_trichotomy i j with less | same | greater
  · exact absurd less (ordered i j first second kept kept')
  · exact same
  · exact absurd greater (ordered j i second first kept' kept)

/-- Another argument at the end does not change what is kept before it. -/
theorem keptAt_append {excluded : Excluded} {items : List S8} {arg other : S8} {i : Nat}
    (inside : i < items.length)
    (different : startsWith other (S "-l") = true → other ≠ arg) :
    KeptAt excluded (items ++ [arg]) other i ↔ KeptAt excluded items other i := by
  unfold KeptAt
  rw [List.take_append_of_le_length inside.le, List.drop_append_of_le_length inside]
  by_cases library : startsWith other (S "-l") = true
  · simp [library, different library]
  · simp [library]

/-- A new argument is kept at the end. -/
theorem keptAt_last {excluded : Excluded} {items : List S8} {arg : S8}
    (free : arg ∉ excluded.args)
    (fresh : startsWith arg (S "-l") = false → arg ∉ items) :
    KeptAt excluded (items ++ [arg]) arg items.length := by
  refine ⟨free, fun _ => ?_⟩
  split
  case isTrue library => simp
  case isFalse notLibrary =>
    rw [List.take_left']
    · exact fresh (by simpa using notLibrary)
    · rfl

/-- The positions of the arguments say where they are kept. -/
structure Positioned (excluded : Excluded) (items : List S8) (args : Args) : Prop where
  list : args.list = items
  count : args.count = items.length
  hidden : ∀ arg ∈ excluded.args, findArgPos args.positions arg = some (-1)
  kept : ∀ arg ∉ excluded.args, dedupable arg = true → arg ∈ items →
    ∃ i : Nat, items[i]? = some arg ∧ KeptAt excluded items arg i ∧
      findArgPos args.positions arg = some (1 + (i : Int))
  free : ∀ arg ∉ excluded.args, (dedupable arg = true → arg ∉ items) →
    findArgPos args.positions arg = none

/-- Excluded arguments have the position minus one, and no other position changes. -/
theorem findArgPos_start (args : Args) (items : List S8) (arg : S8) :
    findArgPos (items.foldl Args.excludeArg args).positions arg =
      if arg ∈ items then some (-1) else findArgPos args.positions arg := by
  induction items generalizing args with
  | nil => rfl
  | cons item items ih =>
      rw [List.foldl_cons, ih, findArgPos_excludeArg]
      by_cases inside : arg ∈ items
      · rw [if_pos inside, if_pos (List.mem_cons_of_mem _ inside)]
      · simp only [inside, if_false, List.mem_cons, or_false]

/-- Excluding an argument does not append it. -/
theorem excludeArgs_list (args : Args) (items : List S8) :
    (items.foldl Args.excludeArg args).list = args.list ∧
      (items.foldl Args.excludeArg args).count = args.count := by
  induction items generalizing args with
  | nil => exact ⟨rfl, rfl⟩
  | cons item items ih => exact ih (args.excludeArg item)

/-- The excluded arguments are positioned before all others. -/
theorem positioned_start (excluded : Excluded) : Positioned excluded [] excluded.start where
  list := (excludeArgs_list _ _).1
  count := (excludeArgs_list _ _).2
  hidden arg member := by rw [Excluded.start, findArgPos_start, if_pos member]
  kept arg _ _ member := by cases member
  free arg outside _ := by
    rw [Excluded.start, findArgPos_start, if_neg outside]
    rfl

/-- Appending an argument keeps the positions right. -/
theorem Positioned.append {excluded : Excluded} {items : List S8} {args : Args}
    (positioned : Positioned excluded items args) (arg : S8) :
    Positioned excluded (items ++ [arg]) (args.appendArg arg) where
  list := by rw [appendArg_list, positioned.list]
  count := by
    have counted : (args.appendArg arg).count = args.count + 1 := by
      unfold Args.appendArg
      dsimp only
      split <;> rfl
    rw [counted, positioned.count, List.length_append, List.length_singleton]
  hidden other member := by
    have old := positioned.hidden other member
    rw [findArgPos_appendArg, old]
    split
    case isTrue both =>
      rw [← both.2, nextPosition, old]
      simp [excluded.not_library member]
    case isFalse => rfl
  kept other outside repeatable member := by
    rw [findArgPos_appendArg]
    by_cases same : other = arg
    · subst same
      rw [if_pos ⟨repeatable, rfl⟩, nextPosition]
      by_cases known : other ∈ items
      · obtain ⟨i, isAt, kept, found⟩ := positioned.kept other outside repeatable known
        have inside := (List.getElem?_eq_some_iff.mp isAt).1
        rw [found, Option.getD_some]
        by_cases library : startsWith other (S "-l") = true
        · refine ⟨items.length, by simp, keptAt_last outside ?_, ?_⟩
          · simp [library]
          · simp [library, positioned.count]
        · refine ⟨i, ?_, ?_, ?_⟩
          · rwa [List.getElem?_append_left inside]
          · exact (keptAt_append inside fun isLibrary => absurd isLibrary library).mpr kept
          · rw [if_neg]
            rintro (zero | isLibrary)
            · omega
            · exact library isLibrary
      · rw [positioned.free other outside fun _ => known]
        refine ⟨items.length, by simp, keptAt_last outside fun _ => known, ?_⟩
        simp [positioned.count]
    · rw [if_neg fun both => same both.2]
      have known : other ∈ items := by simpa [same] using member
      obtain ⟨i, isAt, kept, found⟩ := positioned.kept other outside repeatable known
      have inside := (List.getElem?_eq_some_iff.mp isAt).1
      refine ⟨i, ?_, (keptAt_append inside fun _ => same).mpr kept, found⟩
      rwa [List.getElem?_append_left inside]
  free other outside absent := by
    rw [findArgPos_appendArg, if_neg]
    · exact positioned.free other outside fun repeatable member =>
        absent repeatable (List.mem_append_left _ member)
    · rintro ⟨repeatable, rfl⟩
      exact absent repeatable (by simp)

/-- Appending arguments keeps their positions. -/
theorem Positioned.appendArgs {excluded : Excluded} {items : List S8} {args : Args}
    (positioned : Positioned excluded items args) (more : List S8) :
    Positioned excluded (items ++ more) (args.appendArgs more) := by
  induction more generalizing items args with
  | nil => rwa [List.append_nil]
  | cons arg more ih =>
      have rest := ih (positioned.append arg)
      rwa [List.append_assoc, List.singleton_append] at rest

/-- An argument is printed at the positions at which it is kept. -/
theorem Positioned.inPosition {excluded : Excluded} {items : List S8} {args : Args}
    (positioned : Positioned excluded items args) {arg : S8} {i : Nat} (isAt : items[i]? = some arg) :
    args.inPosition arg i = true ↔ KeptAt excluded items arg i := by
  have member := List.mem_of_getElem? isAt
  rw [Args.inPosition]
  by_cases hidden : arg ∈ excluded.args
  · rw [positioned.hidden arg hidden]
    refine iff_of_false ?_ fun kept => kept.1 hidden
    simp only [beq_iff_eq]
    omega
  by_cases repeatable : dedupable arg = true
  · obtain ⟨j, isAt', kept, found⟩ := positioned.kept arg hidden repeatable member
    rw [found]
    constructor
    · intro same
      have same : j = i := by
        simp only [beq_iff_eq] at same
        omega
      rwa [← same]
    · intro kept'
      rw [KeptAt.unique repeatable isAt isAt' kept' kept]
      simp [Int.add_comm]
  · rw [positioned.free arg hidden fun isRepeatable => absurd isRepeatable repeatable]
    exact iff_of_true rfl ⟨hidden, fun isRepeatable => absurd isRepeatable repeatable⟩

/-- The arguments that are printed, with their positions. -/
def printedArgs (args : Args) : List (S8 × Nat) :=
  args.list.zipIdx.filter fun item => args.inPosition item.1 item.2

/-- The loop writes the arguments that are in position. -/
theorem writeArgsFrom_eq (format : ArgFormat) (args : Args) (position : Nat) (items : List S8)
    (output : ArgOutput) : writeArgsFrom format args position items output =
      (((items.zipIdx position).filter fun item => args.inPosition item.1 item.2).map
        Prod.fst).foldl (writeArg format) output := by
  induction items generalizing position output with
  | nil => rfl
  | cons arg items ih =>
      rw [writeArgsFrom, List.zipIdx_cons, List.filter_cons, ih]
      split
      · rfl
      · rfl

/-- The writer takes the printed arguments one after the other. -/
theorem writeArgs_foldl (format : ArgFormat) (args : Args) (output : ArgOutput) :
    writeArgs format args output =
      ((printedArgs args).map Prod.fst).foldl (writeArg format) output :=
  writeArgsFrom_eq format args 0 args.list output

/-- The text of the output is the one of the printed arguments. -/
theorem writeArgs_text (format : ArgFormat) (args : Args) (output : ArgOutput) :
    writeArgs format args output =
      ⟨output.argCount + ((printedArgs args).map Prod.fst).length,
        output.out ++ format.added output.argCount ((printedArgs args).map Prod.fst)⟩ := by
  rw [writeArgs_foldl, format.foldl_writeArg_added]

/-- A writer that has printed nothing before prints one line. -/
theorem writeArgs_line (format : ArgFormat) (args : Args) :
    writeArgs format args ⟨0, []⟩ =
      ⟨((printedArgs args).map Prod.fst).length, format.line ((printedArgs args).map Prod.fst)⟩ := by
  rw [writeArgs_foldl, format.foldl_writeArg]

/-- What is in position is what is kept. -/
theorem Positioned.printedArgs_eq {excluded : Excluded} {items : List S8} {args : Args}
    (positioned : Positioned excluded items args) : printedArgs args = keptArgs excluded items := by
  rw [printedArgs, keptArgs, positioned.list]
  apply List.filter_congr
  rintro ⟨arg, i⟩ member
  have isAt : items[i]? = some arg := by simpa [List.mk_mem_zipIdx_iff_getElem?] using member
  rw [Bool.eq_iff_iff, positioned.inPosition isAt, decide_eq_true_eq]

/-- The writer prints the arguments that are kept. -/
theorem printedArgs_start (excluded : Excluded) (items : List S8) :
    printedArgs (excluded.start.appendArgs items) = keptArgs excluded items :=
  ((positioned_start excluded).appendArgs items).printedArgs_eq

/-- An argument is kept at a place where it stands and is kept. -/
theorem mem_keptArgs {excluded : Excluded} {items : List S8} {arg : S8} {i : Nat} :
    (arg, i) ∈ keptArgs excluded items ↔ items[i]? = some arg ∧ KeptAt excluded items arg i := by
  simp [keptArgs, List.mk_mem_zipIdx_iff_getElem?]

/-- The excluded arguments are left out of what is kept without them. -/
theorem keptArgs_excluded (excluded : Excluded) (items : List S8) : keptArgs excluded items =
    (keptArgs noneExcluded items).filter fun item => item.1 ∉ excluded.args := by
  rw [keptArgs, keptArgs, List.filter_filter]
  apply List.filter_congr
  intro item _
  have shown : item.1 ∉ noneExcluded.args := List.not_mem_nil
  rw [Bool.eq_iff_iff, Bool.and_eq_true, decide_eq_true_eq, decide_eq_true_eq, decide_eq_true_eq,
    KeptAt, KeptAt, and_iff_right shown]

/-- No place is kept twice. -/
theorem keptArgs_nodup (excluded : Excluded) (items : List S8) :
    (keptArgs excluded items).Nodup := by
  apply List.Nodup.filter
  apply List.Nodup.of_map Prod.snd
  rw [List.zipIdx_map_snd]
  exact List.nodup_range'

/-- A repeatable argument is kept once. -/
theorem count_keptArgs {excluded : Excluded} {items : List S8} {arg : S8}
    (repeatable : dedupable arg = true) (free : arg ∉ excluded.args) (member : arg ∈ items) :
    ((keptArgs excluded items).map Prod.fst).count arg = 1 := by
  obtain ⟨i, isAt, kept, _⟩ :=
    ((positioned_start excluded).appendArgs items).kept arg free repeatable member
  have only : ∀ item ∈ keptArgs excluded items, item.1 == arg ↔ item == (arg, i) := by
    rintro ⟨other, j⟩ isKept
    obtain ⟨isAt', kept'⟩ := mem_keptArgs.mp isKept
    simp only [beq_iff_eq, Prod.mk.injEq]
    constructor
    · rintro rfl
      exact ⟨rfl, KeptAt.unique repeatable isAt' isAt kept' kept⟩
    · exact And.left
  rw [List.count, List.countP_map]
  change (keptArgs excluded items).countP (fun item => item.1 == arg) = 1
  rw [List.countP_congr only]
  exact List.count_eq_one_of_mem (keptArgs_nodup _ _) (mem_keptArgs.mpr ⟨isAt, kept⟩)

/-- The text that is printed is the line of exactly the arguments at the positions where they are
kept, in their order, behind what has been printed before. No repeatable argument is lost. -/
theorem writeArgs_kept (excluded : Excluded) (items : List S8) (format : ArgFormat) :
    writeArgs format (excluded.start.appendArgs items) ⟨0, []⟩ =
      ⟨(keptArgs excluded items).length, format.line ((keptArgs excluded items).map Prod.fst)⟩ ∧
    (∀ output, writeArgs format (excluded.start.appendArgs items) output =
      ⟨output.argCount + (keptArgs excluded items).length, output.out ++
        format.added output.argCount ((keptArgs excluded items).map Prod.fst)⟩) ∧
    (∀ arg i, (arg, i) ∈ keptArgs excluded items ↔
      items[i]? = some arg ∧ KeptAt excluded items arg i) ∧
    ((keptArgs excluded items).map Prod.fst).Sublist items ∧
    ∀ arg, dedupable arg = true → arg ∉ excluded.args → arg ∈ items →
      ((keptArgs excluded items).map Prod.fst).count arg = 1 := by
  refine ⟨?_, fun output => ?_, fun arg i => mem_keptArgs, ?_, fun arg => count_keptArgs⟩
  · rw [writeArgs_line, printedArgs_start, List.length_map]
  · rw [writeArgs_text, printedArgs_start, List.length_map]
  · have inside := (List.filter_sublist (p := fun item => decide (KeptAt excluded items item.1 item.2))
      (l := items.zipIdx)).map Prod.fst
    rwa [List.zipIdx_map_fst] at inside

/-- The directory is hidden, the macro stays at its first place and the library at its last. -/
theorem writeArgs_kept_mixed :
    writeArgs ⟨false, 0⟩ ((Excluded.mk [S "-I/a"] (by decide)).start.appendArgs
        [S "-lx", S "-DA", S "-I/a", S "x", S "-ly", S "-DA", S "x", S "-lx"]) ⟨0, []⟩ =
      ⟨5, S "-DA x -ly x -lx"⟩ := by
  rw [(writeArgs_kept _ _ _).1]
  decide +kernel

/-- The argument of a directory starts with its flag. -/
theorem dequoteToken_flag {flag : UInt8} (isFlag : flag = 'I'.toUInt8 ∨ flag = 'L'.toUInt8)
    (rest : S8) : ∃ more, (dequoteToken (['-'.toUInt8, flag] ++ rest)).printed =
      ['-'.toUInt8, flag] ++ more := by
  rcases isFlag with rfl | rfl
  · exact ⟨(dequoteScan .start rest).printed, rfl⟩
  · exact ⟨(dequoteScan .start rest).printed, rfl⟩

/-- What a directory of a system path excludes. -/
def dirKeys (flag : UInt8) (dir : S8) : List S8 :=
  let dr := (dequoteToken (['-'.toUInt8, flag] ++ s8PathEncode dir)).result
  if dr.ok && dr.tail.length == 0 then [dr.arg] else []

/-- A directory excludes what its flag and its path are dequoted to. -/
theorem excludeDir_eq (args : Args) (dir : S8) (flag : UInt8) :
    args.excludeDir dir flag = (dirKeys flag dir).foldl Args.excludeArg args := by
  unfold Args.excludeDir dirKeys
  dsimp only
  split <;> rfl

/-- What a directory excludes starts with the flag. -/
theorem dirKeys_flagged {flag : UInt8} (isFlag : flag = 'I'.toUInt8 ∨ flag = 'L'.toUInt8)
    (dir : S8) :
    ∀ arg ∈ dirKeys flag dir, startsWith arg (S "-I") = true ∨ startsWith arg (S "-L") = true := by
  unfold dirKeys
  dsimp only
  split
  case isFalse => exact nofun
  case isTrue complete =>
    intro arg member
    rw [List.mem_singleton.mp member]
    rw [Bool.and_eq_true, DequoteScan.result] at complete
    obtain ⟨more, printed⟩ := dequoteToken_flag isFlag (s8PathEncode dir)
    rw [DequoteScan.result]
    split
    case isTrue isOpen =>
      rw [if_pos isOpen] at complete
      cases complete.1
    case isFalse =>
      dsimp only
      rw [printed]
      rcases isFlag with rfl | rfl
      · exact .inl (by simp [startsWith, S])
      · exact .inr (by simp [startsWith, S])

/-- A system path excludes what its components exclude. -/
theorem insertSysPath_eq (args : Args) (path : S8) (delim flag : UInt8) :
    args.insertSysPath path delim flag =
      ((components path delim).flatMap (dirKeys flag)).foldl Args.excludeArg args := by
  fun_induction Args.insertSysPath args path delim flag with
  | case1 => rfl
  | case2 args path nonempty c args' ih =>
      have first : args' = ((if c.head = [] then [] else [c.head]).flatMap (dirKeys flag)).foldl
          Args.excludeArg args := by
        by_cases empty : c.head = []
        · rw [if_pos empty]
          exact if_pos empty
        · rw [if_neg empty, List.flatMap_singleton, ← excludeDir_eq]
          exact if_neg empty
      rw [ih, components_cut path delim, List.flatMap_append, List.foldl_append, first]

/-- The arguments that a system path excludes. -/
def sysExcluded (path : S8) (delim : UInt8) {flag : UInt8}
    (isFlag : flag = 'I'.toUInt8 ∨ flag = 'L'.toUInt8) : Excluded where
  args := (components path delim).flatMap (dirKeys flag)
  flagged := by
    intro arg member
    obtain ⟨dir, _, isKey⟩ := List.mem_flatMap.mp member
    exact dirKeys_flagged isFlag dir arg isKey

/-- The writer starts with these arguments excluded after the system path has been inserted. -/
theorem insertSysPath_start (path : S8) (delim : UInt8) {flag : UInt8}
    (isFlag : flag = 'I'.toUInt8 ∨ flag = 'L'.toUInt8) :
    Args.empty.insertSysPath path delim flag = (sysExcluded path delim isFlag).start :=
  insertSysPath_eq .empty path delim flag

end UConfig
