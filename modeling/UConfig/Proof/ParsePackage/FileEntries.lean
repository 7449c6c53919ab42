/-
This file gives the entries of any package file and proves that the scanner stores their values,
up to the backslashes at their ends.
-/

import UConfig.Proof.ParsePackage.RoundTrip
import UConfig.Proof.ParsePackage.Values

namespace UConfig

structure FileEntry where
  key : Entry.Key
  value : S8

/-- A name ends at a newline or at a separator. -/
def nameByte (c : UInt8) : Bool :=
  c != '\n'.toUInt8 && c != '='.toUInt8 && c != ':'.toUInt8

/-- A name before a colon is only a key when it is known. -/
def entryKey (sep : UInt8) (name : S8) : Option Entry.Key :=
  if sep = '='.toUInt8 then some (.binding name) else (fieldByName name).map .field

/-- The text behind a separator is shorter. -/
theorem length_text_lt {p text : S8} {sep : UInt8}
    (found : (p.dropWhile whitespace).dropWhile nameByte = sep :: text) :
    text.length < p.length := by
  have line := (List.dropWhile_sublist whitespace (l := p)).length_le
  have rest := (List.dropWhile_sublist nameByte (l := p.dropWhile whitespace)).length_le
  rw [found, List.length_cons] at rest
  omega

/-- The text behind a comment is shorter. -/
theorem length_comment_lt {p : S8} {c : UInt8} (sign : (p.dropWhile whitespace).head? = some c) :
    (skipComment (p.dropWhile whitespace)).length < p.length := by
  have line := (List.dropWhile_sublist whitespace (l := p)).length_le
  have comment := skipComment_length (p.dropWhile whitespace)
  obtain ⟨tail, shape⟩ := List.head?_eq_some_iff.mp sign
  rw [shape, List.length_cons] at line comment
  rw [shape]
  omega

/-- The name of a line stands between its leading whitespace and the whitespace before its
separator. -/
def lineName (p : S8) : S8 :=
  ((p.dropWhile whitespace).takeWhile nameByte).rdropWhile whitespace

/-- The entries of a file from the first to the last.
A line without a separator holds none, and a value may go on over several lines. -/
def fileEntries (p : S8) : List FileEntry :=
  if (p.dropWhile whitespace).head? = some '#'.toUInt8 then
    fileEntries (skipComment (p.dropWhile whitespace))
  else
    match _ : (p.dropWhile whitespace).dropWhile nameByte with
    | [] => []
    | sep :: text =>
        if sep = '\n'.toUInt8 then fileEntries text
        else
          match entryKey sep (lineName p) with
          | some key => ⟨key, trim (readValue text).head⟩ :: fileEntries (readValue text).tail
          | none => fileEntries (readValue text).tail
termination_by p.length
decreasing_by
  · exact length_comment_lt ‹_›
  · exact length_text_lt ‹_›
  · exact (readValue_length text).trans_lt (length_text_lt ‹_›)
  · exact (readValue_length text).trans_lt (length_text_lt ‹_›)

/-- Without a separator there are no more entries. -/
theorem fileEntries_unseparated {p : S8}
    (noSign : (p.dropWhile whitespace).head? ≠ some '#'.toUInt8)
    (unseparated : (p.dropWhile whitespace).dropWhile nameByte = []) : fileEntries p = [] := by
  rw [fileEntries, if_neg noSign]
  split
  case h_1 => rfl
  case h_2 separated =>
    rw [unseparated] at separated
    cases separated

/-- A separator ends a name and begins a value. -/
theorem fileEntries_separated {p text : S8} {sep : UInt8}
    (noSign : (p.dropWhile whitespace).head? ≠ some '#'.toUInt8)
    (separated : (p.dropWhile whitespace).dropWhile nameByte = sep :: text) :
    fileEntries p =
      if sep = '\n'.toUInt8 then fileEntries text
      else
        match entryKey sep (lineName p) with
        | some key => ⟨key, trim (readValue text).head⟩ :: fileEntries (readValue text).tail
        | none => fileEntries (readValue text).tail := by
  rw [fileEntries, if_neg noSign]
  split
  case h_1 unseparated =>
    rw [separated] at unseparated
    cases unseparated
  case h_2 found =>
    rw [separated] at found
    cases found
    rfl

/-- A name ends at three bytes. -/
theorem nameByte_iff {c : UInt8} :
    nameByte c = true ↔ ¬(c = '\n'.toUInt8 ∨ c = '='.toUInt8 ∨ c = ':'.toUInt8) := by
  simp [nameByte, and_assoc]

/-- A name is scanned up to its separator. -/
theorem scanName_stops (p finish : S8) (c : UInt8) :
    match p.dropWhile nameByte with
    | [] => (scanName p finish c).p = [] ∧
        (nameByte c = true → nameByte (scanName p finish c).c = true)
    | sep :: text => (scanName p finish c).p = text ∧ (scanName p finish c).c = sep := by
  induction p generalizing finish c with
  | nil => exact ⟨rfl, id⟩
  | cons d p ih =>
      by_cases stops : d = '\n'.toUInt8 ∨ d = '='.toUInt8 ∨ d = ':'.toUInt8
      · have outside : ¬nameByte d = true := fun inside => nameByte_iff.mp inside stops
        rw [scanName, if_pos stops, List.dropWhile_cons_of_neg outside]
        exact ⟨rfl, rfl⟩
      · have inside := nameByte_iff.mpr stops
        have rest := ih (if whitespace d then finish else p) d
        rw [scanName, if_neg stops, List.dropWhile_cons_of_pos inside]
        split
        case h_1 empty =>
          rw [empty] at rest
          exact ⟨rest.1, fun _ => rest.2 inside⟩
        case h_2 found =>
          rw [found] at rest
          exact rest

/-- A name ends before the whitespace in front of its separator. -/
theorem scanName_finish (p finish : S8) (c : UInt8) :
    (∀ d ∈ p.takeWhile nameByte, whitespace d = true) ∧ (scanName p finish c).finish = finish ∨
      (p.takeWhile nameByte).rdropWhile whitespace ≠ [] ∧
        p = (p.takeWhile nameByte).rdropWhile whitespace ++ (scanName p finish c).finish := by
  induction p generalizing finish c with
  | nil => exact .inl ⟨by simp, rfl⟩
  | cons d p ih =>
      by_cases stops : d = '\n'.toUInt8 ∨ d = '='.toUInt8 ∨ d = ':'.toUInt8
      · have outside : ¬nameByte d = true := fun inside => nameByte_iff.mp inside stops
        rw [scanName, if_pos stops, List.takeWhile_cons_of_neg outside]
        exact .inl ⟨by simp, rfl⟩
      · rw [scanName, if_neg stops, List.takeWhile_cons_of_pos (nameByte_iff.mpr stops)]
        rcases ih (if whitespace d then finish else p) d with ⟨blank, stays⟩ | ⟨nonempty, shape⟩
        · rw [stays]
          by_cases space : whitespace d = true
          · rw [if_pos space]
            exact .inl ⟨List.forall_mem_cons.mpr ⟨space, blank⟩, rfl⟩
          · right
            rw [if_neg space, rdropWhile_cons_of_neg _ (Bool.not_eq_true _ ▸ space),
              List.rdropWhile_eq_nil_iff.mpr blank]
            exact ⟨List.cons_ne_nil _ _, rfl⟩
        · right
          rw [rdropWhile_cons_of_ne_nil d nonempty]
          exact ⟨List.cons_ne_nil _ _, congrArg (d :: ·) shape⟩

/-- The scan of a name drops the blanks behind it. -/
theorem span_scanName (p : S8) :
    span p (scanName p p 0).finish = (p.takeWhile nameByte).rdropWhile whitespace := by
  rcases scanName_finish p p 0 with ⟨blank, stays⟩ | ⟨_, shape⟩
  · rw [stays, List.rdropWhile_eq_nil_iff.mpr blank]
    exact span_append [] p
  · have cut := span_append ((p.takeWhile nameByte).rdropWhile whitespace) (scanName p p 0).finish
    rwa [← shape] at cut

/-- A line without a separator ends the file. -/
theorem scanLine_unseparated (pkg : Pkg) {p : S8}
    (noComment : (p.dropWhile whitespace).head? ≠ some '#'.toUInt8)
    (unseparated : (p.dropWhile whitespace).dropWhile nameByte = []) :
    scanLine pkg p = .next [] pkg := by
  have stops := scanName_stops (p.dropWhile whitespace) (p.dropWhile whitespace) 0
  rw [unseparated] at stops
  obtain ⟨empty, last⟩ := stops
  have none := nameByte_iff.mp (last (by decide))
  simp only [not_or] at none
  simp only [scanLine, if_neg noComment, openTarget, if_neg none.2.1, if_neg none.2.2, empty]

/-- What the scanner does with the separator of a line and with the text behind it. -/
theorem scanLine_separated (pkg : Pkg) {p text : S8} {sep : UInt8}
    (noComment : (p.dropWhile whitespace).head? ≠ some '#'.toUInt8)
    (separated : (p.dropWhile whitespace).dropWhile nameByte = sep :: text) :
    scanLine pkg p =
      match openTarget pkg sep (lineName p) with
      | .skip => .next text pkg
      | .duplicate result => .done result
      | target => .next (readValue text).tail
          (target.store pkg (((readValue text).head.dropWhile whitespace).rdropWhile loose)) := by
  have stops := scanName_stops (p.dropWhile whitespace) (p.dropWhile whitespace) 0
  rw [separated] at stops
  obtain ⟨rest, last⟩ := stops
  obtain ⟨tail, value⟩ := scanValue_skipLeading text
  simp only [scanLine, if_neg noComment, rest, last, span_scanName, tail, value]
  rfl

/-- A separator opens a key that is new, and the value of an unknown field is dropped. -/
theorem openTarget_entryKey (pkg : Pkg) {sep : UInt8} (name : S8)
    (isSep : sep = '='.toUInt8 ∨ sep = ':'.toUInt8) :
    match entryKey sep name with
    | none => openTarget pkg sep name = .unknown
    | some key =>
        if ((key.stored pkg).getD none).isSome then
          ∃ result, openTarget pkg sep name = .duplicate result ∧ ∀ other, result ≠ .ok other
        else openTarget pkg sep name = key.target := by
  rcases isSep with rfl | rfl
  · simp only [entryKey, openTarget, if_pos, inserted_isSome]
    split
    case isTrue isSet => exact ⟨.dupVariable name, rfl, fun _ same => (by cases same)⟩
    case isFalse unset => rfl
  · rw [entryKey, if_neg (by decide), openTarget, if_neg (by decide), if_pos rfl]
    cases fieldByName name with
    | none => rfl
    | some known =>
        simp only [Option.map_some, field_isSome]
        split
        case isTrue isSet => exact ⟨.dupField name, rfl, fun _ same => (by cases same)⟩
        case isFalse unset => rfl

/-- The scan goes from the package to the result, where it finds every key once and stores its
value, up to the loose bytes at the end. -/
structure Stores (entries : List FileEntry) (pkg result : Pkg) : Prop where
  fresh : ∀ entry ∈ entries, ((entry.key.stored pkg).getD none).isSome = false
  stored : ∀ entry ∈ entries,
    entry.key.stored result = some (some (entry.value.rdropWhile loose))
  unchanged : ∀ key, (∀ entry ∈ entries, entry.key ≠ key) → key.stored result = key.stored pkg

/-- Without entries nothing is stored. -/
theorem Stores.nil (pkg : Pkg) : Stores [] pkg pkg where
  fresh := nofun
  stored := nofun
  unchanged := fun _ _ => rfl

/-- An entry under a new key is stored first. -/
theorem Stores.cons {entries : List FileEntry} {pkg result : Pkg} {entry : FileEntry}
    (stores : Stores entries (entry.key.target.store pkg (entry.value.rdropWhile loose)) result)
    (fresh : ((entry.key.stored pkg).getD none).isSome = false) :
    Stores (entry :: entries) pkg result := by
  have later : ∀ other ∈ entries, other.key ≠ entry.key := by
    intro other member same
    have unset := stores.fresh other member
    rw [entry.key.stored_store, if_pos same.symm] at unset
    cases unset
  constructor
  · intro other member
    rcases List.mem_cons.mp member with rfl | behind
    · exact fresh
    · have unset := stores.fresh other behind
      rwa [entry.key.stored_store, if_neg (Ne.symm (later other behind))] at unset
  · intro other member
    rcases List.mem_cons.mp member with rfl | behind
    · rw [stores.unchanged _ later, other.key.stored_store, if_pos rfl]
    · exact stores.stored other behind
  · intro key absent
    have split := List.forall_mem_cons.mp absent
    rw [stores.unchanged key split.2, entry.key.stored_store, if_neg split.1]

/-- What drops more drops all at once. -/
theorem rdropWhile_rdropWhile {α : Type} {first second : α → Bool} (text : List α)
    (weaker : ∀ c, first c = true → second c = true) :
    (text.rdropWhile first).rdropWhile second = text.rdropWhile second := by
  induction text using List.reverseRecOn with
  | nil => rfl
  | append_singleton text last ih =>
      by_cases dropped : first last = true
      · rw [List.rdropWhile_concat_pos _ _ _ dropped,
          List.rdropWhile_concat_pos _ _ _ (weaker last dropped), ih]
      · rw [List.rdropWhile_concat_neg _ _ _ dropped]

/-- The trimmed value loses the same bytes. -/
theorem rdropWhile_trim (text : S8) :
    (trim text).rdropWhile loose = (text.dropWhile whitespace).rdropWhile loose :=
  rdropWhile_rdropWhile _ fun c space => by rw [loose, space]; rfl

/-- A text with a separator is not empty. -/
theorem nonempty_of_separated {p text : S8} {sep : UInt8}
    (separated : (p.dropWhile whitespace).dropWhile nameByte = sep :: text) : p ≠ [] := by
  rintro rfl
  cases separated

/-- A separator is an equals sign or a colon when it does not end the line. -/
theorem separator_of_stops {line text : S8} {sep : UInt8}
    (separated : line.dropWhile nameByte = sep :: text) (notNewline : sep ≠ '\n'.toUInt8) :
    sep = '='.toUInt8 ∨ sep = ':'.toUInt8 := by
  have outside := stops_of_dropWhile separated
  by_contra other
  rw [nameByte_iff.mpr (not_or.mpr ⟨notNewline, other⟩)] at outside
  cases outside

/-- A scan that ends well has stored the entries of the file. -/
theorem scanLines_stores {pkg result : Pkg} {p : S8} (parsed : scanLines pkg p = .ok result) :
    Stores (fileEntries p) pkg result := by
  fun_induction fileEntries p generalizing pkg with
  | case1 p sign ih =>
      have nonempty : p ≠ [] := by
        rintro rfl
        cases sign
      rw [scanLines_next nonempty (if_pos sign)] at parsed
      exact ih parsed
  | case2 p noSign unseparated =>
      have same : pkg = result := by
        by_cases empty : p = []
        · rw [empty, scanLines_nil] at parsed
          exact ParseResult.ok.inj parsed
        · rw [scanLines_next empty (scanLine_unseparated pkg noSign unseparated),
            scanLines_nil] at parsed
          exact ParseResult.ok.inj parsed
      rw [same]
      exact Stores.nil result
  | case3 p noSign text separated ih =>
      have nonempty := nonempty_of_separated separated
      rw [scanLines_next nonempty (scanLine_separated pkg noSign separated)] at parsed
      exact ih parsed
  | case4 p noSign sep text separated notNewline key isKey ih =>
      have nonempty := nonempty_of_separated separated
      have isSep := separator_of_stops separated notNewline
      have turn := scanLine_separated pkg noSign separated
      have opened := openTarget_entryKey pkg (lineName p) isSep
      rw [isKey] at opened
      dsimp only at opened
      split at opened
      case isTrue isSet =>
        obtain ⟨duplicate, target, notOk⟩ := opened
        rw [target] at turn
        rw [scanLines_done nonempty turn] at parsed
        exact absurd parsed (notOk result)
      case isFalse unset =>
        rw [opened] at turn
        have stored : scanLine pkg p = .next (readValue text).tail (key.target.store pkg
            ((trim (readValue text).head).rdropWhile loose)) := by
          rw [turn, rdropWhile_trim]
          cases key <;> rfl
        rw [scanLines_next nonempty stored] at parsed
        exact (ih parsed).cons (Bool.not_eq_true _ ▸ unset)
  | case5 p noSign sep text separated notNewline noKey ih =>
      have nonempty := nonempty_of_separated separated
      have isSep := separator_of_stops separated notNewline
      have turn := scanLine_separated pkg noSign separated
      have opened := openTarget_entryKey pkg (lineName p) isSep
      rw [noKey] at opened
      dsimp only at opened
      rw [opened] at turn
      rw [scanLines_next nonempty turn] at parsed
      exact ih parsed

/-- A file that is parsed holds its entries, where the loose bytes at the end of a value are lost,
and nothing else. -/
theorem parsePackage_stores {src : S8} {pkg : Pkg} (parsed : parsePackage src = .ok pkg) :
    Stores (fileEntries src) { Pkg.zero with contents := some src } pkg :=
  scanLines_stores parsed

/-- Every value is trimmed. -/
theorem mem_fileEntries_trimmed {p : S8} {entry : FileEntry} (member : entry ∈ fileEntries p) :
    ∃ text, entry.value = trim text := by
  fun_induction fileEntries p with
  | case1 _ _ ih => exact ih member
  | case2 => cases member
  | case3 _ _ _ _ ih => exact ih member
  | case4 _ _ _ text _ _ _ _ ih =>
      rcases List.mem_cons.mp member with rfl | behind
      · exact ⟨_, rfl⟩
      · exact ih behind
  | case5 _ _ _ _ _ _ _ ih => exact ih member

/-- A trimmed value keeps all of its bytes exactly when it does not end in a backslash. -/
theorem rdropWhile_loose_eq_iff (text : S8) :
    (trim text).rdropWhile loose = trim text ↔ (trim text).getLast? ≠ some '\\'.toUInt8 := by
  rw [List.rdropWhile_eq_self_iff]
  by_cases empty : trim text = []
  · simp [empty]
  · have solid : ¬whitespace ((trim text).getLast empty) = true :=
      List.rdropWhile_last_not whitespace (text.dropWhile whitespace) empty
    constructor
    · intro keeps isBackslash
      rw [List.getLast?_eq_getLast_of_ne_nil empty, Option.some_inj] at isBackslash
      exact keeps empty (by rw [loose, isBackslash]; rfl)
    · intro other _ isLoose
      rw [List.getLast?_eq_getLast_of_ne_nil empty, ne_eq, Option.some_inj] at other
      rw [loose, Bool.or_eq_true, beq_iff_eq] at isLoose
      exact isLoose.elim solid other

/-- A file that is parsed holds exactly the values of its entries, each without its escapes and
without the whitespace around it, unless the value ends in a backslash. -/
theorem parsePackage_values {src : S8} {pkg : Pkg} (parsed : parsePackage src = .ok pkg) :
    (∀ key, (key.stored pkg).isSome → ∃ entry ∈ fileEntries src, entry.key = key) ∧
      ∀ entry ∈ fileEntries src, entry.key.stored pkg = some (some entry.value) ↔
        entry.value.getLast? ≠ some '\\'.toUInt8 := by
  have stores := parsePackage_stores parsed
  constructor
  · intro key isSet
    by_contra absent
    push Not at absent
    rw [stores.unchanged key absent] at isSet
    cases key <;> cases isSet
  · intro entry member
    obtain ⟨text, trimmed⟩ := mem_fileEntries_trimmed member
    rw [stores.stored entry member, trimmed, Option.some_inj, Option.some_inj]
    exact rdropWhile_loose_eq_iff text

/-- A path that ends in a backslash is the value of one line. -/
theorem readValue_backslash : readValue (S "C:\\") = ⟨S "C:\\", []⟩ := by
  have last : readValue (S "\\") = ⟨S "\\", []⟩ := by
    change readValue ('\\'.toUInt8 :: []) = _
    rw [readValue, if_neg (by decide), if_neg (by decide), if_pos rfl, if_neg (by decide),
      if_neg (by decide), readValue]
    rfl
  change readValue ('C'.toUInt8 :: ':'.toUInt8 :: S "\\") = _
  rw [readValue_other _ (by decide) (by decide) (by decide),
    readValue_other _ (by decide) (by decide) (by decide), last]
  rfl

theorem backslash_separated :
    ((S "dir=C:\\").dropWhile whitespace).dropWhile nameByte = '='.toUInt8 :: S "C:\\" := by
  with_unfolding_all rfl

theorem backslash_noSign : ((S "dir=C:\\").dropWhile whitespace).head? ≠ some '#'.toUInt8 := by
  have head : ((S "dir=C:\\").dropWhile whitespace).head? = some 'd'.toUInt8 := by
    with_unfolding_all rfl
  rw [head]
  decide

/-- The value of the entry ends in a backslash. -/
theorem fileEntries_backslash :
    fileEntries (S "dir=C:\\") = [⟨.binding (S "dir"), S "C:\\"⟩] := by
  have nothing : fileEntries [] = [] := fileEntries_unseparated (by decide) rfl
  have name : lineName (S "dir=C:\\") = S "dir" := by with_unfolding_all rfl
  have value : trim (S "C:\\") = S "C:\\" := by with_unfolding_all rfl
  rw [fileEntries_separated backslash_noSign backslash_separated, readValue_backslash, nothing,
    name, value, if_neg (by decide), entryKey, if_pos rfl]

/-- The file can be parsed. -/
theorem parsePackage_backslash : ∃ pkg, parsePackage (S "dir=C:\\") = .ok pkg := by
  have turn := scanLine_separated { Pkg.zero with contents := some (S "dir=C:\\") }
    backslash_noSign backslash_separated
  have opened := openTarget_entryKey { Pkg.zero with contents := some (S "dir=C:\\") }
    (lineName (S "dir=C:\\")) (.inl rfl)
  change openTarget _ _ _ = .binding _ at opened
  rw [opened, readValue_backslash] at turn
  rw [parsePackage, scanLines_next (by decide) turn, scanLines_nil]
  exact ⟨_, rfl⟩

/-- The scanner loses the backslash at the end of a path. -/
theorem parsePackage_loses_backslash : ∃ pkg, parsePackage (S "dir=C:\\") = .ok pkg ∧
    fileEntries (S "dir=C:\\") = [⟨.binding (S "dir"), S "C:\\"⟩] ∧
    (Entry.Key.binding (S "dir")).stored pkg = some (some (S "C:")) := by
  obtain ⟨pkg, parsed⟩ := parsePackage_backslash
  refine ⟨pkg, parsed, fileEntries_backslash, ?_⟩
  have stores := parsePackage_stores parsed
  rw [fileEntries_backslash] at stores
  exact stores.stored ⟨.binding (S "dir"), S "C:\\"⟩ (List.mem_singleton_self _)

/-- The backslash at the end is lost. -/
theorem parsePackage_values_backslash : ∃ pkg, parsePackage (S "dir=C:\\") = .ok pkg ∧
    ∀ entry ∈ fileEntries (S "dir=C:\\"), entry.key.stored pkg = some (some entry.value) ↔
      entry.value.getLast? ≠ some '\\'.toUInt8 := by
  obtain ⟨pkg, parsed⟩ := parsePackage_backslash
  exact ⟨pkg, parsed, (parsePackage_values parsed).2⟩

end UConfig
