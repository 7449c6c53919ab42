/-
This file proves that quoted arguments are read back from a command line.
-/

import UConfig.Proof.Cmdline.Run
import UConfig.Proof.Wide.Utf8

namespace UConfig

open Unicode

section

variable {α : Type*} [DecidableEq α] (slash mark : α)

/-- The number counts the backslashes that have just been copied. -/
def quoteFrom : Nat → List α → List α
  | copied, [] => List.replicate copied slash
  | copied, c :: rest =>
      if c = slash then slash :: quoteFrom (copied + 1) rest
      else if c = mark then List.replicate (copied + 1) slash ++ mark :: quoteFrom 0 rest
      else c :: quoteFrom 0 rest

/-- An argument in quotes. -/
def quote (arg : List α) : List α := mark :: (quoteFrom slash mark 0 arg ++ [mark])

/-- Backslashes are copied and counted. -/
theorem quoteFrom_slashes (copied count : Nat) (rest : List α) :
    quoteFrom slash mark copied (List.replicate count slash ++ rest) =
      List.replicate count slash ++ quoteFrom slash mark (copied + count) rest := by
  induction count generalizing copied with
  | zero => rfl
  | succ count ih =>
      rw [List.replicate_succ, List.cons_append, quoteFrom, if_pos rfl, ih, Nat.add_right_comm]
      rfl

/-- Any other unit is copied and ends the count. -/
theorem quoteFrom_copies {c : α} (notSlash : c ≠ slash) (notMark : c ≠ mark) (copied : Nat)
    (rest : List α) :
    quoteFrom slash mark copied (c :: rest) = c :: quoteFrom slash mark 0 rest := by
  rw [quoteFrom, if_neg notSlash, if_neg notMark]

/-- A run of backslashes in front of a quote is doubled, and the quote gets one of its own. -/
theorem quoteFrom_mark (different : mark ≠ slash) (count : Nat) (rest : List α) :
    quoteFrom slash mark 0 (List.replicate count slash ++ mark :: rest) =
      List.replicate (2 * count + 1) slash ++ mark :: quoteFrom slash mark 0 rest := by
  rw [quoteFrom_slashes, quoteFrom, if_neg different, if_pos rfl, ← List.append_assoc,
    List.replicate_append_replicate]
  congr 2
  omega

/-- A run of backslashes at the end is doubled. -/
theorem quoteFrom_end (count : Nat) :
    quoteFrom slash mark 0 (List.replicate count slash) = List.replicate (2 * count) slash := by
  have split := quoteFrom_slashes slash mark 0 count []
  rw [List.append_nil, quoteFrom, List.replicate_append_replicate] at split
  rw [split]
  congr 1
  omega

/-- Other runs of backslashes are copied. -/
theorem quoteFrom_other {c : α} (notSlash : c ≠ slash) (notMark : c ≠ mark) (count : Nat)
    (rest : List α) : quoteFrom slash mark 0 (List.replicate count slash ++ c :: rest) =
      List.replicate count slash ++ c :: quoteFrom slash mark 0 rest := by
  rw [quoteFrom_slashes, quoteFrom_copies slash mark notSlash notMark]

/-- A quoted argument starts with a backslash, a mark or its own first unit. -/
theorem quoteFrom_head (copied : Nat) (arg : List α) :
    ∀ c ∈ (quoteFrom slash mark copied arg).head?, c = slash ∨ c = mark ∨ c ∈ arg.head? := by
  intro c first
  cases arg with
  | nil =>
      cases copied with
      | zero => cases first
      | succ copied => exact .inl (Option.some.inj first).symm
  | cons d rest =>
      rw [quoteFrom] at first
      split_ifs at first with isSlash isMark
      · exact .inl (Option.some.inj first).symm
      · exact .inl (Option.some.inj first).symm
      · exact .inr (.inr first)

/-- Quoting adds nothing but backslashes and marks. -/
theorem mem_quoteFrom (copied : Nat) (arg : List α) :
    ∀ c ∈ quoteFrom slash mark copied arg, c = slash ∨ c = mark ∨ c ∈ arg := by
  intro c inside
  induction arg generalizing copied with
  | nil => exact .inl (List.eq_of_mem_replicate inside)
  | cons d rest ih =>
      have later : ∀ copied, c ∈ quoteFrom slash mark copied rest →
          c = slash ∨ c = mark ∨ c ∈ d :: rest := fun copied below =>
        (ih copied below).imp_right (Or.imp_right (List.mem_cons_of_mem d))
      rw [quoteFrom] at inside
      split_ifs at inside with isSlash isMark
      · rcases List.mem_cons.mp inside with same | below
        · exact .inl same
        · exact later _ below
      · rcases List.mem_append.mp inside with copy | more
        · exact .inl (List.eq_of_mem_replicate copy)
        · rcases List.mem_cons.mp more with same | below
          · exact .inr (.inl same)
          · exact later _ below
      · rcases List.mem_cons.mp inside with same | below
        · exact .inr (.inr (List.mem_cons.mpr (.inl same)))
        · exact later _ below

end

/-- The arguments of a command line, each with a space in front of it. -/
def quotedArgs (args : List S16) : S16 := args.flatMap fun arg => 0x20 :: quote 0x5c 0x22 arg

/-- The name of the program is not quoted. -/
def quotedLine (name : S16) (args : List S16) : S16 := name ++ quotedArgs args

/-- Backslashes are code points of their own. -/
theorem codePoints_slashes (count : Nat) (rest : S16) :
    codePoints (List.replicate count 0x5c ++ rest) =
      List.replicate count 0x5c ++ codePoints rest := by
  induction count with
  | zero => rfl
  | succ count ih =>
      rw [List.replicate_succ, List.cons_append, codePoints_ascii (by decide), ih]
      rfl

/-- A unit that does not start a pair is quoted like its code point. -/
theorem codePoints_quote_cons {unit : UInt16} {rest : S16} (copied : Nat)
    (single : isHighSurrogate unit = true → ∀ low ∈ rest.head?, isLowSurrogate low = false)
    (ih : ∀ copied, codePoints (quoteFrom 0x5c 0x22 copied rest) =
      quoteFrom 0x5c 0x22 copied (codePoints rest)) :
    codePoints (quoteFrom 0x5c 0x22 copied (unit :: rest)) =
      quoteFrom 0x5c 0x22 copied (unit.toNat :: codePoints rest) := by
  have isSlash : unit.toNat = 0x5c ↔ unit = 0x5c := UInt16.toNat_inj (b := 0x5c)
  have isMark : unit.toNat = 0x22 ↔ unit = 0x22 := UInt16.toNat_inj (b := 0x22)
  rw [quoteFrom, quoteFrom]
  simp only [isSlash, isMark]
  split_ifs with slash mark
  · rw [codePoints_ascii (by decide), ih]
    rfl
  · rw [codePoints_slashes, codePoints_ascii (by decide), ih]
    rfl
  · rw [codePoints_cons, ih]
    intro high low first
    rcases quoteFrom_head 0x5c 0x22 0 rest low first with rfl | rfl | first
    · decide
    · decide
    · exact single high low first

/-- The code points of a quoted argument are its quoted code points. -/
theorem codePoints_quoteFrom (copied : Nat) (arg : S16) :
    codePoints (quoteFrom 0x5c 0x22 copied arg) =
      quoteFrom 0x5c 0x22 copied (codePoints arg) := by
  induction arg using codePoints.induct generalizing copied with
  | case1 => simpa [quoteFrom, codePoints] using codePoints_slashes copied []
  | case2 unit =>
      refine codePoints_quote_cons copied (by simp) fun copied => ?_
      simpa [quoteFrom, codePoints] using codePoints_slashes copied []
  | case3 high low rest pair ih =>
      have value : 0x10000 ≤ pairValue high low := by
        unfold pairValue
        omega
      have surrogates := pair
      simp only [isHighSurrogate, isLowSurrogate, Bool.and_eq_true, decide_eq_true_eq] at surrogates
      have copies : ∀ unit : UInt16, 0xd800 ≤ unit.toNat → ∀ copied rest,
          quoteFrom 0x5c 0x22 copied (unit :: rest) = unit :: quoteFrom 0x5c 0x22 0 rest := by
        intro unit above copied rest
        apply quoteFrom_copies
        · rintro rfl
          exact absurd above (by decide)
        · rintro rfl
          exact absurd above (by decide)
      rw [copies high (by omega), copies low (by omega), codePoints, codePoints, if_pos pair,
        if_pos pair, quoteFrom_copies _ _ (by omega) (by omega), ih]
  | case4 unit second rest single ih =>
      have split : codePoints (unit :: second :: rest) =
          unit.toNat :: codePoints (second :: rest) := by
        rw [codePoints, if_neg single]
      rw [split]
      refine codePoints_quote_cons copied ?_ fun copied => ih copied
      intro high low first
      cases first
      rw [high, Bool.true_and, Bool.not_eq_true] at single
      exact single

/-- The code points of an argument in quotes and of what follows. -/
theorem codePoints_quoted (arg more : S16) :
    codePoints (0x20 :: quote 0x5c 0x22 arg ++ more) =
      0x20 :: quote 0x5c 0x22 (codePoints arg) ++ codePoints more := by
  have split : 0x20 :: quote 0x5c 0x22 arg ++ more =
      0x20 :: 0x22 :: (quoteFrom 0x5c 0x22 0 arg ++ 0x22 :: more) := by
    simp [quote]
  have border : ∀ low ∈ ((0x22 : UInt16) :: more).head?, isLowSurrogate low = false := by
    intro low first
    cases first
    decide
  rw [split, codePoints_ascii (by decide), codePoints_ascii (by decide),
    codePoints_append _ border, codePoints_ascii (by decide), codePoints_quoteFrom]
  simp [quote]

namespace ArgScan

/-- The scan is in quotes behind this number of backslashes. -/
structure InQuotes (a : ArgScan) (count : Nat) (done : List S8) (s : S8) : Prop where
  done : a.done = done
  cur : a.cur = some s
  state : count = 0 ∧ a.state = .quoted ∨ 0 < count ∧ a.state = .slashQuoted ∧ a.slash = count

variable {a : ArgScan} {count : Nat} {done : List S8} {s : S8}

/-- A backslash in quotes is copied and counted. -/
theorem InQuotes.slash (inQuotes : a.InQuotes count done s) :
    (a.step 0x5c).InQuotes (count + 1) done (s ++ [0x5c]) := by
  obtain ⟨state, slash, _, _⟩ := a
  obtain ⟨rfl, rfl, ⟨rfl, rfl⟩ | ⟨positive, rfl, rfl⟩⟩ := inQuotes
  · constructor <;> simp [step, turn, move, argMove, ArgOut.bytes, encodeRune]
  · constructor <;> simp [step, turn, move, argMove, slashMove, ArgOut.bytes, encodeRune]

/-- So are several backslashes. -/
theorem InQuotes.slashes (inQuotes : a.InQuotes count done s) (more : Nat) :
    ((List.replicate more 0x5c).foldl step a).InQuotes (count + more) done
      (s ++ List.replicate more 0x5c) := by
  induction more generalizing a count s with
  | zero => simpa using inQuotes
  | succ more ih =>
      have next := ih inQuotes.slash
      rw [List.append_assoc, Nat.add_right_comm] at next
      exact next

/-- Any other unit in quotes is copied and ends the count. -/
theorem InQuotes.copy (inQuotes : a.InQuotes count done s) {c : Nat} (notSlash : c ≠ 0x5c)
    (notMark : c ≠ 0x22) : (a.step c).InQuotes 0 done (s ++ encodeRune c) := by
  obtain ⟨state, slash, _, _⟩ := a
  obtain ⟨rfl, rfl, ⟨rfl, rfl⟩ | ⟨positive, rfl, rfl⟩⟩ := inQuotes
  · constructor <;> simp [step, turn, move, argMove, ArgOut.bytes, notSlash, notMark]
  · constructor <;> simp [step, turn, move, argMove, slashMove, ArgOut.bytes, notSlash, notMark]

/-- An odd number of backslashes in front of a quote is halved, and the quote is copied. -/
theorem InQuotes.mark (inQuotes : a.InQuotes (2 * count + 1) done (s ++ List.replicate (count + 1) 0x5c)) :
    (a.step 0x22).InQuotes 0 done (s ++ [0x22]) := by
  obtain ⟨state, slash, _, _⟩ := a
  obtain ⟨rfl, rfl, ⟨none, rfl⟩ | ⟨positive, rfl, rfl⟩⟩ := inQuotes
  · omega
  · have odd : (2 * count + 1) % 2 = 1 := by omega
    have half : (1 + (2 * count + 1)) / 2 = count + 1 := by omega
    constructor <;> simp [step, turn, move, argMove, slashMove, ArgOut.bytes, encodeRune, odd, half]

/-- A word has been read up to its end, and a space would finish it. -/
structure AtEnd (a : ArgScan) (words : List S8) : Prop where
  args : a.args = words
  space : ∃ slash, a.step 0x20 = ⟨.outside, slash, words, none⟩

/-- An even number of backslashes in front of a quote is halved, and the quotes end. -/
theorem InQuotes.close (inQuotes : a.InQuotes (2 * count) done (s ++ List.replicate count 0x5c)) :
    (a.step 0x22).AtEnd (done ++ [s]) := by
  obtain ⟨state, slash, _, _⟩ := a
  obtain ⟨rfl, rfl, ⟨none, rfl⟩ | ⟨positive, rfl, rfl⟩⟩ := inQuotes
  · obtain rfl : count = 0 := by omega
    constructor <;> simp [step, turn, move, argMove, args, ArgOut.bytes, isBlank]
  · have even : 2 * count % 2 = 0 := by omega
    have half : (1 + 2 * count) / 2 = count := by omega
    constructor <;>
      simp [step, turn, move, argMove, slashMove, args, ArgOut.bytes, isBlank, half]

/-- The bytes of a quoted argument are the bytes of the argument. -/
theorem InQuotes.quoted (inQuotes : a.InQuotes count done s)
    (copied : List.replicate count 0x5c <:+ s) (cs : List Nat) :
    ((quoteFrom 0x5c 0x22 count cs ++ [0x22]).foldl step a).AtEnd
      (done ++ [s ++ cs.flatMap encodeRune]) := by
  induction cs generalizing a count s with
  | nil =>
      obtain ⟨s, rfl⟩ := copied
      have more := inQuotes.slashes count
      rw [← Nat.two_mul] at more
      rw [quoteFrom, List.foldl_append, List.flatMap_nil, List.append_nil]
      exact more.close
  | cons c cs ih =>
      rw [quoteFrom, List.flatMap_cons, ← List.append_assoc]
      split_ifs with isSlash isMark
      · subst isSlash
        apply ih inQuotes.slash
        obtain ⟨s, rfl⟩ := copied
        rw [List.append_assoc, ← List.replicate_succ']
        exact List.suffix_append _ _
      · subst isMark
        have more := inQuotes.slashes (count + 1)
        have odd : count + (count + 1) = 2 * count + 1 := by omega
        rw [odd] at more
        have rest := ih more.mark (List.nil_suffix)
        rwa [← List.foldl_cons, ← List.foldl_append, ← List.cons_append, ← List.append_assoc] at rest
      · exact ih (inQuotes.copy isSlash isMark) (List.nil_suffix)

/-- An argument in quotes becomes the next argument. -/
theorem AtEnd.argument {words : List S8} (atEnd : a.AtEnd words) (cs : List Nat) :
    ((0x20 :: quote 0x5c 0x22 cs).foldl step a).AtEnd (words ++ [cs.flatMap encodeRune]) := by
  obtain ⟨slash, space⟩ := atEnd.space
  have opened : ((a.step 0x20).step 0x22).InQuotes 0 words [] := by
    rw [space]
    constructor <;> simp [step, turn, move, argMove, ArgOut.bytes, isBlank]
  exact opened.quoted List.nil_suffix cs

/-- The scan has read these bytes of the name of the program. -/
structure InName (a : ArgScan) (s : S8) : Prop where
  done : a.done = []
  cur : a.cur = some s
  state : a.state = .unquotedFirst

/-- The name of the program is copied up to its first blank. -/
theorem InName.copies (inName : a.InName s) {cs : List Nat} (plain : ∀ c ∈ cs, isBlank c = false) :
    (cs.foldl step a).InName (s ++ cs.flatMap encodeRune) := by
  induction cs generalizing a s with
  | nil => simpa using inName
  | cons c cs ih =>
      obtain ⟨notBlank, plain⟩ := List.forall_mem_cons.mp plain
      have next : (a.step c).InName (s ++ encodeRune c) := by
        obtain ⟨state, slash, _, _⟩ := a
        obtain ⟨rfl, rfl, rfl⟩ := inName
        constructor <;> simp [step, turn, move, argMove, ArgOut.bytes, notBlank]
      rw [List.foldl_cons, List.flatMap_cons, ← List.append_assoc]
      exact ih next plain

/-- At the end of the line the name is the last argument. -/
theorem InName.atEnd (inName : a.InName s) : a.AtEnd [s] := by
  obtain ⟨state, slash, _, _⟩ := a
  obtain ⟨rfl, rfl, rfl⟩ := inName
  constructor <;> simp [step, turn, move, argMove, args, isBlank]

/-- The name of the program becomes the first argument. -/
theorem name_atEnd {cs : List Nat} (nonempty : cs ≠ [])
    (plain : ∀ c ∈ cs, isBlank c = false ∧ c ≠ 0x22) :
    (cs.foldl step start).AtEnd [cs.flatMap encodeRune] := by
  cases cs with
  | nil => exact absurd rfl nonempty
  | cons c cs =>
      obtain ⟨⟨notBlank, notMark⟩, plain⟩ := List.forall_mem_cons.mp plain
      have first : (start.step c).InName (encodeRune c) := by
        constructor <;> simp [start, step, turn, move, argMove, ArgOut.bytes, notBlank, notMark]
      exact (first.copies fun c inside => (plain c inside).1).atEnd

end ArgScan

/-- The code points of an argument are encoded one by one. -/
theorem encodeRune_codePoints (units : S16) : (codePoints units).flatMap encodeRune = wtf8 units := by
  rw [wtf8, List.flatMap_def, List.flatMap_def]
  congr 1
  apply List.map_congr_left
  intro c inside
  exact encodeRune_eq (codePoints_lt units c inside)

/-- The quoted arguments are read one behind the other. -/
theorem ArgScan.AtEnd.arguments {a : ArgScan} {words : List S8} (atEnd : a.AtEnd words)
    (args : List S16) :
    ((codePoints (quotedArgs args)).foldl step a).AtEnd (words ++ args.map wtf8) := by
  induction args generalizing a words with
  | nil => simpa [quotedArgs, codePoints] using atEnd
  | cons arg args ih =>
      have next := ih (atEnd.argument (codePoints arg))
      rw [← List.foldl_append, List.append_assoc, encodeRune_codePoints] at next
      rw [quotedArgs, List.flatMap_cons, codePoints_quoted]
      exact next

/-- The program produces the name and the arguments of a quoted command line. -/
theorem producedArgs_quotedLine {name : S16} (args : List S16) (nonempty : name ≠ [])
    (plain : ∀ unit ∈ name, unit ≠ 0x20 ∧ unit ≠ 0x09 ∧ unit ≠ 0x22) :
    producedArgs (quotedLine name args) = wtf8 name :: args.map wtf8 := by
  have border : ∀ low ∈ (quotedArgs args).head?, isLowSurrogate low = false := by
    intro low first
    cases args with
    | nil => cases first
    | cons arg args =>
        cases first
        decide
  have someCode : codePoints name ≠ [] := by
    intro none
    cases name with
    | nil => exact nonempty rfl
    | cons unit rest =>
        cases rest with
        | nil => cases none
        | cons second rest =>
            rw [codePoints] at none
            split at none <;> cases none
  have plain' : ∀ c ∈ codePoints name, isBlank c = false ∧ c ≠ 0x22 := by
    intro c inside
    rcases mem_codePoints inside with large | ⟨unit, known, rfl⟩
    · simp only [isBlank, Bool.or_eq_false_iff, beq_eq_false_iff_ne]
      omega
    · obtain ⟨notSpace, notTab, notMark⟩ := plain unit known
      simp only [isBlank, Bool.or_eq_false_iff, beq_eq_false_iff_ne]
      rw [ne_eq, ← UInt16.toNat_inj] at notSpace notTab notMark
      exact ⟨⟨notTab, notSpace⟩, notMark⟩
  have named := ArgScan.name_atEnd someCode plain'
  rw [encodeRune_codePoints] at named
  rw [producedArgs, quotedLine, codePoints_append _ border, List.foldl_append]
  exact (named.arguments args).args

/-- Every argument takes its space and its quotes. -/
theorem length_quotedArgs (args : List S16) : 3 * args.length ≤ (quotedArgs args).length := by
  induction args with
  | nil => exact Nat.le_refl _
  | cons arg args ih =>
      have marks : 2 ≤ (quote 0x5c 0x22 arg).length := by simp [quote]
      rw [quotedArgs] at ih ⊢
      simp only [List.flatMap_cons, List.length_append, List.length_cons]
      omega

/-- Quoting adds no null unit. -/
theorem zero_notMem_quotedLine {name : S16} {args : List S16} (inName : 0 ∉ name)
    (inArgs : ∀ arg ∈ args, 0 ∉ arg) : 0 ∉ quotedLine name args := by
  intro zero
  rcases List.mem_append.mp zero with isName | isArg
  · exact inName isName
  · obtain ⟨arg, known, isQuoted⟩ := List.mem_flatMap.mp isArg
    simp only [quote, List.mem_cons, List.mem_append, List.not_mem_nil, or_false] at isQuoted
    rcases isQuoted with space | mark | copied | mark
    · cases space
    · cases mark
    · rcases mem_quoteFrom 0x5c 0x22 0 arg 0 copied with slash | mark | inside
      · cases slash
      · cases mark
      · exact inArgs arg known inside
    · cases mark

/-- Quoting is undone for every list of arguments. -/
theorem quoting_roundTrip (P : PointerSize) (argv : Memory ArgvCell) (name : S16) (args : List S16)
    (nonempty : name ≠ [])
    (plain : ∀ unit ∈ name, unit ≠ 0 ∧ unit ≠ 0x20 ∧ unit ≠ 0x09 ∧ unit ≠ 0x22)
    (nonzero : ∀ arg ∈ args, ∀ unit ∈ arg, unit ≠ 0)
    (short : (quotedLine name args).length ≤ 32766) : ∃ result,
    CmdlineToArgv8 P argv (quotedLine name args) result ∧ result.argc = 1 + args.length ∧
      HoldsArgs P result (wtf8 name :: args.map wtf8) := by
  have inName : 0 ∉ name := fun inside => (plain 0 inside).1 rfl
  have inArgs : ∀ arg ∈ args, 0 ∉ arg := fun arg known inside => nonzero arg known 0 inside rfl
  let line : CommandLine := {
    units := quotedLine name args
    nonzero := zero_notMem_quotedLine inName inArgs
    short := Nat.lt_succ_of_le short }
  obtain ⟨result, ends, argc, _, holds⟩ := argv_returns P argv line
  have produced := producedArgs_quotedLine args nonempty fun unit inside => (plain unit inside).2
  have count : result.argc = 1 + args.length := by
    rw [argc, produced, List.length_cons, List.length_map, Nat.add_comm]
  have few := length_quotedArgs args
  have split : (quotedLine name args).length = name.length + (quotedArgs args).length :=
    List.length_append
  refine ⟨result, ends, count, ?_⟩
  rw [← produced]
  exact holds (by omega)

/-- An argument that ends with a backslash and holds a quote is read back. -/
theorem quoting_roundTrip_example : ∃ result,
    CmdlineToArgv8 ⟨8, by decide⟩ (fun _ => .byte 0)
        (quotedLine [0x75] [[0x61, 0x5c, 0x22, 0x5c], [], [0xd83d, 0xde00]]) result ∧
      result.argc = 1 + [[0x61, 0x5c, 0x22, 0x5c], [], [0xd83d, 0xde00]].length ∧
      HoldsArgs ⟨8, by decide⟩ result
        (wtf8 [0x75] :: [[0x61, 0x5c, 0x22, 0x5c], [], [0xd83d, 0xde00]].map wtf8) :=
  quoting_roundTrip _ _ _ _ (by simp) (by simp) (by simp) (by decide)

end UConfig
