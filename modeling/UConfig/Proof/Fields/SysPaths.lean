/-
This file proves that the directories of a system path are left out however they are quoted.
-/

import UConfig.Proof.Dequote.OneWord
import UConfig.Proof.Fields.Dedup

namespace UConfig

/-- A directory of a system path has no quote, no backslash, no byte that a field cannot hold
between its words and no byte that stands for another one. -/
def dirByte (c : UInt8) : Bool :=
  !(S "\t\n\r\'\"\\$()").contains c && !encodingByte c

/-- The bytes of an argument whose spelling does not depend on how they are encoded. -/
def plainByte (c : UInt8) : Bool := !(S "\t\n\r$()").contains c

/-- The spelling of a byte in an argument. -/
def spelling (c : UInt8) : S8 :=
  if c = ' '.toUInt8 ∨ shellMeta c = true then ['\\'.toUInt8, c] else [c]

/-- A plain value is printed as it is spelled. -/
theorem valueBytes_spelling : ∀ b, plainByte (quotedValue b) = true →
    valueBytes b = spelling (quotedValue b) :=
  forall_byte (by decide +kernel)

/-- An argument without special values has one spelling, whatever it has been quoted with. -/
theorem scan_spelling {q : Quoting} (unescaped : q.escaped = false) (s : S8)
    (plain : ∀ c ∈ unescape (dequoteScan q s).printed, plainByte c = true) :
    (dequoteScan q s).printed = (unescape (dequoteScan q s).printed).flatMap spelling := by
  induction s generalizing q with
  | nil => rfl
  | cons b s ih =>
      rw [dequoteScan] at plain ⊢
      cases consumed : dequoteByte q b with
      | none => rfl
      | some next =>
          obtain ⟨bytes, q'⟩ := next
          rw [consumed] at plain
          dsimp only at plain ⊢
          obtain ⟨unescaped', _, ⟨rfl, _⟩ | rfl⟩ := dequoteByte_some unescaped consumed
          · exact ih unescaped' plain
          · rw [escapes_valueBytes b, List.singleton_append] at plain ⊢
            rw [List.forall_mem_cons] at plain
            rw [List.flatMap_cons, ← ih unescaped' plain.2, valueBytes_spelling b plain.1]

/-- A word with a plain meaning is printed as it is spelled. -/
theorem Word.arg_spelling (word : Word) (plain : ∀ c ∈ word.meaning, plainByte c = true) :
    word.arg = word.meaning.flatMap spelling := by
  rw [← word.unescape_arg] at plain ⊢
  exact scan_spelling rfl word.text plain

/-- The bytes of such a directory need no quotes. -/
theorem dirByte_bare : ∀ c, dirByte c = true → isQuote (pathEncode c) = false ∧
    encodingByte c = false ∧ plainByte c = true :=
  forall_byte (by decide +kernel)

/-- What the words denote that a system path hides. -/
def flaggedDirs (path : S8) (delim flag : UInt8) : List S8 :=
  (components path delim).map (['-'.toUInt8, flag] ++ ·)

/-- The bytes of the flag need no quotes. -/
theorem flag_bare {flag : UInt8} (isFlag : flag = 'I'.toUInt8 ∨ flag = 'L'.toUInt8) :
    ∀ c ∈ ['-'.toUInt8, flag],
      whitespace c = false ∧ isQuote c = false ∧ plainByte c = true := by
  rcases isFlag with rfl | rfl <;> decide +kernel

/-- A directory excludes the argument of a word that denotes it behind the flag. -/
theorem dirKeys_word {flag : UInt8} (isFlag : flag = 'I'.toUInt8 ∨ flag = 'L'.toUInt8) {dir : S8}
    (plain : ∀ c ∈ dir, dirByte c = true) :
    ∃ word : Word, dirKeys flag dir = [word.arg] ∧ word.meaning = ['-'.toUInt8, flag] ++ dir := by
  have bare : ∀ c ∈ ['-'.toUInt8, flag] ++ dir.map pathEncode,
      whitespace c = false ∧ isQuote c = false := by
    intro c member
    rcases List.mem_append.mp member with isHead | inside
    · exact ⟨(flag_bare isFlag c isHead).1, (flag_bare isFlag c isHead).2.1⟩
    · obtain ⟨d, isByte, rfl⟩ := List.mem_map.mp inside
      exact ⟨(pathEncode_inert d).1, (dirByte_bare d (plain d isByte)).1⟩
  obtain ⟨word, isText, denotes⟩ := exists_bareWord _ bare
  have nonempty : word ≠ [] := by
    rintro rfl
    cases isText
  have blank : ∀ c ∈ ([] : S8), whitespace c = true := nofun
  have stops : WordEnd [] := nofun
  have token := dequoteToken_word blank nonempty stops
  rw [List.nil_append, List.append_nil, isText] at token
  refine ⟨word, ?_, ?_⟩
  · rw [dirKeys, s8PathEncode_eq_map, token]
    rfl
  · have decoded : (dir.map pathEncode).map pathDecode = dir := by
      rw [List.map_map]
      exact (List.map_congr_left fun c member =>
        pathDecode_pathEncode c (dirByte_bare c (plain c member)).2.1).trans (List.map_id dir)
    rw [denotes, List.map_append, decoded]
    rcases isFlag with rfl | rfl <;> rfl

/-- The argument of a word is excluded exactly when the word denotes a directory of the path. -/
theorem arg_mem_sysExcluded {path : S8} {delim flag : UInt8}
    (isFlag : flag = 'I'.toUInt8 ∨ flag = 'L'.toUInt8)
    (plain : ∀ dir ∈ components path delim, ∀ c ∈ dir, dirByte c = true) (word : Word) :
    word.arg ∈ (sysExcluded path delim isFlag).args ↔ word.meaning ∈ flaggedDirs path delim flag := by
  rw [flaggedDirs, List.mem_map]
  constructor
  · intro excluded
    obtain ⟨dir, member, isKey⟩ := List.mem_flatMap.mp excluded
    obtain ⟨other, keys, denotes⟩ := dirKeys_word isFlag (plain dir member)
    rw [keys, List.mem_singleton] at isKey
    refine ⟨dir, member, ?_⟩
    rw [← denotes, ← word.unescape_arg, ← other.unescape_arg, isKey]
  · rintro ⟨dir, member, denotes⟩
    obtain ⟨other, keys, denotes'⟩ := dirKeys_word isFlag (plain dir member)
    have plainMeaning : ∀ c ∈ ['-'.toUInt8, flag] ++ dir, plainByte c = true := by
      intro c isByte
      rcases List.mem_append.mp isByte with isHead | inside
      · exact (flag_bare isFlag c isHead).2.2
      · exact (dirByte_bare c (plain dir member c inside)).2.2
    have same : word.arg = other.arg := by
      rw [word.arg_spelling (denotes ▸ plainMeaning), other.arg_spelling (denotes' ▸ plainMeaning),
        denotes', denotes]
    exact List.mem_flatMap.mpr ⟨dir, member, by rw [keys, same]; exact List.mem_singleton_self _⟩

/-- The arguments that the words of a field append under a filter. Whitespace at the end of the
field appends an empty one. -/
def wordArgs (words : List Word) (trailing : S8) (f : Filter) : List S8 :=
  (words.map Word.arg ++ if trailing = [] then [] else [[]]).filter (filterOk f)

/-- The arguments that are printed for the words without a system path. -/
def shownArgs (words : List Word) (trailing : S8) (f : Filter) : List S8 :=
  (keptArgs noneExcluded (wordArgs words trailing f)).map Prod.fst

/-- The printed arguments that denote no directory of the system path behind the flag. -/
def leftArgs (path : S8) (delim flag : UInt8) (words : List Word) (trailing : S8) (f : Filter) :
    List S8 :=
  (shownArgs words trailing f).filter fun arg => !(flaggedDirs path delim flag).contains (unescape arg)

/-- A system path excludes what denotes one of its directories, and never the empty argument. -/
theorem wordArgs_excluded {path : S8} {delim flag : UInt8}
    (isFlag : flag = 'I'.toUInt8 ∨ flag = 'L'.toUInt8)
    (plain : ∀ dir ∈ components path delim, ∀ c ∈ dir, dirByte c = true) {words : List Word}
    {trailing : S8} {f : Filter} {arg : S8} (member : arg ∈ wordArgs words trailing f) :
    arg ∈ (sysExcluded path delim isFlag).args ↔ unescape arg ∈ flaggedDirs path delim flag := by
  rw [wordArgs, List.mem_filter, List.mem_append] at member
  rcases member.1 with isWord | isEmpty
  · obtain ⟨word, _, rfl⟩ := List.mem_map.mp isWord
    rw [word.unescape_arg]
    exact arg_mem_sysExcluded isFlag plain word
  · have empty : arg = [] := by
      split at isEmpty
      · cases isEmpty
      · exact List.mem_singleton.mp isEmpty
    rw [empty]
    refine iff_of_false (fun excluded => ?_) fun hidden => ?_
    · have flagged := (sysExcluded path delim isFlag).flagged [] excluded
      revert flagged
      decide
    · obtain ⟨dir, _, same⟩ := List.mem_map.mp hidden
      cases same

/-- With the system path the arguments are printed that do not denote its directories. -/
theorem keptArgs_sysPath {path : S8} {delim flag : UInt8}
    (isFlag : flag = 'I'.toUInt8 ∨ flag = 'L'.toUInt8)
    (plain : ∀ dir ∈ components path delim, ∀ c ∈ dir, dirByte c = true) (words : List Word)
    (trailing : S8) (f : Filter) :
    (keptArgs (sysExcluded path delim isFlag) (wordArgs words trailing f)).map Prod.fst =
      leftArgs path delim flag words trailing f := by
  rw [keptArgs_excluded, leftArgs, shownArgs, List.filter_map]
  refine congrArg _ (List.filter_congr ?_)
  rintro ⟨arg, i⟩ member
  have isArg := List.mem_of_getElem? (mem_keptArgs.mp member).1
  rw [Bool.eq_iff_iff, decide_eq_true_eq, wordArgs_excluded isFlag plain isArg]
  simp only [Function.comp_apply, List.contains_iff_mem, Bool.not_eq_true', Bool.eq_false_iff, ne_eq]

/-- The text that is printed with a system path is the line that is printed without it, where the
words that denote a directory of the path behind the flag are left out and all others stay as they
are. -/
theorem sysPath_hides {path : S8} {delim flag : UInt8}
    (isFlag : flag = 'I'.toUInt8 ∨ flag = 'L'.toUInt8)
    (plain : ∀ dir ∈ components path delim, ∀ c ∈ dir, dirByte c = true)
    {field : S8} {words : List Word} {trailing : S8}
    (fieldWords : FieldWords field words trailing) (f : Filter) (realname : S8) :
    ∃ args args', appendField ⟨Args.empty.insertSysPath path delim flag, f⟩ realname field =
        .ok ⟨args, f⟩ ∧
      appendField ⟨Args.empty.insertSysPath [] delim flag, f⟩ realname field = .ok ⟨args', f⟩ ∧
      let shown := shownArgs words trailing f
      let left := leftArgs path delim flag words trailing f
      (∀ format, writeArgs format args' ⟨0, []⟩ = ⟨shown.length, format.line shown⟩) ∧
      (∀ format, writeArgs format args ⟨0, []⟩ = ⟨left.length, format.line left⟩) ∧
      ∀ word ∈ words, unescape word.arg = word.meaning ∧
        (word.meaning ∈ flaggedDirs path delim flag → word.arg ∉ left) ∧
        (word.meaning ∉ flaggedDirs path delim flag →
          left.count word.arg = shown.count word.arg) := by
  have nothing : Args.empty.insertSysPath [] delim flag = noneExcluded.start := by
    rw [Args.insertSysPath, if_pos rfl]
    rfl
  rw [nothing, insertSysPath_start path delim isFlag]
  refine ⟨_, _, appendField_words fieldWords f _ realname, appendField_words fieldWords f _ realname,
    fun format => ?_, fun format => ?_, fun word _ => ⟨word.unescape_arg, ?_, ?_⟩⟩
  · rw [writeArgs_line, printedArgs_start]
    rfl
  · rw [writeArgs_line, printedArgs_start, ← keptArgs_sysPath isFlag plain]
    rfl
  · intro hidden member
    have shows := (List.mem_filter.mp member).2
    rw [word.unescape_arg, List.contains_iff_mem.mpr hidden] at shows
    cases shows
  · intro shows
    apply List.count_filter
    rw [word.unescape_arg]
    simpa using shows

/-- A directory with a space that stands between single quotes. -/
def quotedDir : Word :=
  [.bare '-'.toUInt8 (by decide) (by decide) (by decide),
    .bare 'I'.toUInt8 (by decide) (by decide) (by decide), .single (S "/a b") (by decide)]

/-- A directory with a blank that is quoted in the field is hidden. -/
theorem sysPath_hides_quotedDir : ∃ args, appendField
    ⟨Args.empty.insertSysPath (S "/usr/include:/a b") ':'.toUInt8 'I'.toUInt8, .any⟩ []
      (S "-I'/a b'") = .ok ⟨args, .any⟩ ∧ writeArgs ⟨false, 0⟩ args ⟨0, []⟩ = ⟨0, []⟩ := by
  have start : ∀ c ∈ ([] : S8), whitespace c = true := nofun
  have stops : WordEnd [] := nofun
  have nonempty : quotedDir ≠ [] := List.cons_ne_nil _ _
  have fieldWords : FieldWords (S "-I'/a b'") [quotedDir] [] :=
    FieldWords.word start nonempty stops (.blank start)
  have plain : ∀ dir ∈ components (S "/usr/include:/a b") ':'.toUInt8,
      ∀ c ∈ dir, dirByte c = true := by decide +kernel
  obtain ⟨args, _, appended, _, _, printed, _⟩ :=
    sysPath_hides (.inl rfl) plain fieldWords .any []
  have nothing : leftArgs (S "/usr/include:/a b") ':'.toUInt8 'I'.toUInt8 [quotedDir] [] .any =
      [] := by decide +kernel
  refine ⟨args, appended, ?_⟩
  rw [printed, nothing]
  rfl

end UConfig
