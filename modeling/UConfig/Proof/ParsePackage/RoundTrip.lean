/-
This file proves that a printed file is read back, and that its first duplicate is found.
-/

import Mathlib.Data.List.Nodup
import UConfig.Proof.ParsePackage.ScanEntry

namespace UConfig

/-- The end of the file ends the scan. -/
theorem scanLines_nil (pkg : Pkg) : scanLines pkg [] = .ok pkg := by
  rw [scanLines, if_pos rfl]

/-- A line is scanned before the next ones. -/
theorem scanLines_next {pkg pkg' : Pkg} {p q : S8} (nonempty : p ≠ [])
    (scan : scanLine pkg p = .next q pkg') : scanLines pkg p = scanLines pkg' q := by
  rw [scanLines, if_neg nonempty]
  split
  case h_1 scan' =>
    rw [scan] at scan'
    cases scan'
    rfl
  case h_2 scan' =>
    rw [scan] at scan'
    cases scan'

/-- A line may end the scan. -/
theorem scanLines_done {pkg : Pkg} {p : S8} {result : ParseResult} (nonempty : p ≠ [])
    (scan : scanLine pkg p = .done result) : scanLines pkg p = result := by
  rw [scanLines, if_neg nonempty]
  split
  case h_1 scan' =>
    rw [scan] at scan'
    cases scan'
  case h_2 scan' =>
    rw [scan] at scan'
    cases scan'
    rfl

/-- Whitespace between lines does not change what the scanner finds. -/
theorem scanLines_whitespace (pkg : Pkg) (spaces p : S8)
    (blank : ∀ c ∈ spaces, whitespace c = true) :
    scanLines pkg (spaces ++ p) = scanLines pkg p := by
  cases spaces with
  | nil => rfl
  | cons c spaces =>
      have dropped : (c :: spaces ++ p).dropWhile whitespace = p.dropWhile whitespace :=
        List.dropWhile_append_of_pos blank
      have nonempty : c :: spaces ++ p ≠ [] := by simp
      cases p with
      | nil =>
          have turn : scanLine pkg (c :: spaces ++ []) = .next [] pkg := by
            rw [scanLine, dropped]
            rfl
          rw [scanLines_next nonempty turn]
      | cons d p =>
          have same : scanLine pkg (c :: spaces ++ d :: p) = scanLine pkg (d :: p) := by
            rw [scanLine, scanLine, dropped]
          cases turn : scanLine pkg (d :: p) with
          | next q pkg' =>
              rw [scanLines_next nonempty (same.trans turn),
                scanLines_next (List.cons_ne_nil _ _) turn]
          | done result =>
              rw [scanLines_done nonempty (same.trans turn),
                scanLines_done (List.cons_ne_nil _ _) turn]

/-- A comment ends with its line. -/
theorem skipComment_line (text p : S8) (oneLine : '\n'.toUInt8 ∉ text) :
    skipComment (text ++ '\n'.toUInt8 :: p) = p := by
  rw [skipComment, List.dropWhile_append_of_pos, List.dropWhile_cons_of_neg]
  · rfl
  · simp
  · intro c member
    have different : c ≠ '\n'.toUInt8 := fun same => oneLine (same ▸ member)
    simpa using different

/-- A comment line does not change what the scanner finds. -/
theorem scanLines_comment (pkg : Pkg) (text p : S8) (oneLine : '\n'.toUInt8 ∉ text) :
    scanLines pkg ('#'.toUInt8 :: text ++ '\n'.toUInt8 :: p) = scanLines pkg p := by
  have turn : scanLine pkg ('#'.toUInt8 :: text ++ '\n'.toUInt8 :: p) = .next p pkg := by
    rw [scanLine, List.cons_append, List.dropWhile_cons_of_neg (by decide)]
    have rest := skipComment_line ('#'.toUInt8 :: text) p
      (List.not_mem_cons_of_ne_of_not_mem (by decide) oneLine)
    exact (if_pos rfl).trans (by rw [← List.cons_append, rest])
  exact scanLines_next (by simp) turn

/-- The lines without an entry do not change what the scanner finds. -/
theorem scanLines_fillers (pkg : Pkg) (fillers : List Filler) (p : S8) :
    scanLines pkg (fillers.flatMap Filler.print ++ p) = scanLines pkg p := by
  induction fillers with
  | nil => rfl
  | cons filler fillers ih =>
      rw [List.flatMap_cons, List.append_assoc]
      refine Eq.trans ?_ ih
      cases filler with
      | blank spaces isBlank ending =>
          apply scanLines_whitespace
          intro c member
          cases List.mem_append.mp member with
          | inl inside => exact isBlank c inside
          | inr atEnd => exact ending.whitespace c atEnd
      | comment text oneLine ending =>
          cases ending with
          | lf =>
              rw [Filler.print, List.append_assoc]
              exact scanLines_comment pkg text _ oneLine
          | crlf =>
              have shape : Filler.print (.comment text oneLine .crlf) =
                  '#'.toUInt8 :: (text ++ ['\r'.toUInt8]) ++ ['\n'.toUInt8] := by
                simp [Filler.print, LineEnd.bytes, S]
              rw [shape, List.append_assoc]
              exact scanLines_comment pkg (text ++ ['\r'.toUInt8]) _
                (by simpa using ⟨oneLine, by decide⟩)

/-- What reading an entry does to the package. -/
def Entry.store (pkg : Pkg) : Entry → Pkg
  | binding name value => { pkg with env := pkg.env.assign name.text (some value.text) }
  | field known value => pkg.setField known (some value.text)
  | unknown _ _ _ => pkg

/-- A key belongs to an entry. -/
theorem mem_keys {entries : List Entry} {key : Entry.Key} :
    key ∈ keys entries ↔ ∃ entry ∈ entries, entry.key = some key :=
  List.mem_filterMap

/-- A key of the package is set exactly when an entry before has it. -/
theorem Bound.isSome_iff {entries : List Entry} {pkg : Pkg} (bound : Bound entries pkg)
    (key : Entry.Key) : ((key.stored pkg).getD none).isSome ↔ key ∈ keys entries := by
  rw [mem_keys]
  constructor
  · intro isSome
    cases found : key.stored pkg with
    | none =>
        rw [found] at isSome
        cases isSome
    | some value =>
        obtain ⟨entry, member, isKey, _⟩ := (bound key value).mp found
        exact ⟨entry, member, isKey⟩
  · intro earlier
    obtain ⟨entry, member, isKey⟩ := earlier
    have found := (bound key (some entry.value.text)).mpr ⟨entry, member, isKey, rfl⟩
    rw [found]
    rfl

/-- The insertion before the test for a duplicate does not change its outcome. -/
theorem inserted_isSome (pkg : Pkg) (name : S8) :
    ((pkg.env.insert name).find name).getD none =
      ((Entry.Key.binding name).stored pkg).getD none := by
  rw [Env.find_insert, if_pos rfl]
  rfl

/-- A field is there when it is stored under its key. -/
theorem field_isSome (pkg : Pkg) (known : Field) :
    (pkg.field known).isSome = (((Entry.Key.field known).stored pkg).getD none).isSome := by
  rw [Entry.Key.stored]
  cases pkg.field known <;> rfl

/-- The scanner stores an entry under a new key and takes a known key as a duplicate. -/
theorem Entry.target_eq {entries : List Entry} {pkg : Pkg} (bound : Bound entries pkg)
    (entry : Entry) :
    entry.target pkg = match entry with
      | .binding name _ =>
          if .binding name.text ∈ keys entries then .duplicate entry.duplicate
          else .binding name.text
      | .field known _ =>
          if .field known ∈ keys entries then .duplicate entry.duplicate else .field known
      | .unknown _ _ _ => .unknown := by
  cases entry with
  | binding name value =>
      change openTarget pkg '='.toUInt8 name.text = _
      simp only [openTarget, if_pos, inserted_isSome, bound.isSome_iff]
      rfl
  | field known value =>
      have label : fieldByName known.label = some known := fieldByName_eq_some.mpr rfl
      change openTarget pkg ':'.toUInt8 known.label = _
      rw [openTarget, if_neg (by decide), if_pos rfl, label]
      simp only [field_isSome, bound.isSome_iff]
      rfl
  | unknown key absent value =>
      change openTarget pkg ':'.toUInt8 key.text = _
      rw [openTarget, if_neg (by decide), if_pos rfl, absent]

/-- An entry whose key is new is stored. -/
theorem scanLines_fresh {entries : List Entry} {pkg : Pkg} (bound : Bound entries pkg)
    (entry : Entry) (fresh : ∀ key, entry.key = some key → key ∉ keys entries)
    (ending : LineEnd) (p : S8) :
    scanLines pkg (entry.line ++ ending.bytes ++ p) = scanLines (entry.store pkg) p := by
  have turn : scanLine pkg (entry.line ++ ending.bytes ++ p) =
      .next ('\n'.toUInt8 :: p) (entry.store pkg) := by
    rw [scanLine_entry, entry.target_eq bound]
    cases entry with
    | binding name value =>
        dsimp only
        rw [if_neg (fresh _ rfl)]
        rfl
    | field known value =>
        dsimp only
        rw [if_neg (fresh _ rfl)]
        rfl
    | unknown key absent value => rfl
  have nonempty : entry.line ++ ending.bytes ++ p ≠ [] := by
    simp [Entry.line]
  rw [scanLines_next nonempty turn]
  exact scanLines_whitespace _ ['\n'.toUInt8] p (by decide +kernel)

/-- An entry that repeats an earlier one ends the scan. -/
theorem scanLines_repeated {entries : List Entry} {pkg : Pkg} (bound : Bound entries pkg)
    (entry : Entry) {key : Entry.Key} (isKey : entry.key = some key) (known : key ∈ keys entries)
    (ending : LineEnd) (p : S8) :
    scanLines pkg (entry.line ++ ending.bytes ++ p) = entry.duplicate := by
  have target : entry.target pkg = .duplicate entry.duplicate := by
    rw [entry.target_eq bound]
    cases entry with
    | binding name value =>
        cases isKey
        exact if_pos known
    | field field value =>
        cases isKey
        exact if_pos known
    | unknown key absent value => cases isKey
  have nonempty : entry.line ++ ending.bytes ++ p ≠ [] := by
    simp [Entry.line]
  apply scanLines_done nonempty
  rw [scanLine_entry, target]

/-- A value is stored under its key only. -/
theorem Entry.Key.stored_store (own key : Entry.Key) (pkg : Pkg) (value : S8) :
    key.stored (own.target.store pkg value) =
      if own = key then some (some value) else key.stored pkg := by
  cases own with
  | binding name =>
      cases key with
      | binding other =>
          simp only [stored, target, Target.store, Env.find_assign, binding.injEq,
            eq_comm (a := other)]
      | field other => rfl
  | field known =>
      cases key with
      | binding other => rfl
      | field other =>
          by_cases same : known = other
          · subst same
            rw [if_pos rfl]
            simp only [stored, target, Target.store, Pkg.setField, Function.update_self]
            rfl
          · have different : Entry.Key.field known ≠ .field other := by simpa using same
            rw [if_neg different]
            simp only [stored, target, Target.store, Pkg.setField,
              Function.update_of_ne (Ne.symm same)]

/-- Storing an entry changes what the package holds under its key only. -/
theorem Entry.stored_store (entry : Entry) (pkg : Pkg) (key : Entry.Key) :
    key.stored (entry.store pkg) =
      if entry.key = some key then some (some entry.value.text) else key.stored pkg := by
  cases entry with
  | binding name value =>
      simp only [Entry.key, Option.some.injEq]
      exact Key.stored_store (.binding name.text) key pkg value.text
  | field known value =>
      simp only [Entry.key, Option.some.injEq]
      exact Key.stored_store (.field known) key pkg value.text
  | unknown label absent value => rfl

/-- Storing an entry whose key is new adds exactly this entry. -/
theorem Bound.store {entries : List Entry} {pkg : Pkg} (bound : Bound entries pkg) (entry : Entry)
    (fresh : ∀ key, entry.key = some key → key ∉ keys entries) :
    Bound (entries ++ [entry]) (entry.store pkg) := by
  intro key value
  rw [entry.stored_store]
  split
  case isTrue isKey =>
    constructor
    · intro found
      exact ⟨entry, List.mem_append_right _ (List.mem_singleton_self _), isKey,
        (Option.some.inj found).symm⟩
    · intro holds
      obtain ⟨other, member, otherKey, rfl⟩ := holds
      cases List.mem_append.mp member with
      | inl earlier => exact absurd (mem_keys.mpr ⟨other, earlier, otherKey⟩) (fresh key isKey)
      | inr last => rw [List.mem_singleton.mp last]
  case isFalse notKey =>
    rw [bound]
    constructor
    · intro holds
      obtain ⟨other, member, otherKey, text⟩ := holds
      exact ⟨other, List.mem_append_left _ member, otherKey, text⟩
    · intro holds
      obtain ⟨other, member, otherKey, text⟩ := holds
      cases List.mem_append.mp member with
      | inl earlier => exact ⟨other, earlier, otherKey, text⟩
      | inr last => exact absurd (List.mem_singleton.mp last ▸ otherKey) notKey

/-- The keys of two files stand one behind the other. -/
theorem keys_append (first second : List Entry) :
    keys (first ++ second) = keys first ++ keys second :=
  List.filterMap_append ..

/-- An entry of a list without repeated keys has a key that is new. -/
theorem fresh_of_nodup {before : List Entry} {entry : Entry} {after : List Entry}
    (nodup : (keys (before ++ entry :: after)).Nodup) (key : Entry.Key)
    (isKey : entry.key = some key) : key ∉ keys before := by
  intro known
  have member : key ∈ keys (entry :: after) := mem_keys.mpr ⟨entry, List.mem_cons_self, isKey⟩
  rw [keys_append] at nodup
  exact (List.disjoint_of_nodup_append nodup) known member

/-- Printed entries without repeated keys are stored one after the other. -/
theorem scanLines_printed (printed : List PrintedEntry) {entries : List Entry} {pkg : Pkg}
    (bound : Bound entries pkg) (nodup : (keys (entries ++ printed.map (·.entry))).Nodup) :
    ∃ pkg', Bound (entries ++ printed.map (·.entry)) pkg' ∧
      ∀ p, scanLines pkg (printed.flatMap PrintedEntry.print ++ p) = scanLines pkg' p := by
  induction printed generalizing entries pkg with
  | nil => exact ⟨pkg, by simpa using bound, fun p => rfl⟩
  | cons first printed ih =>
      rw [List.map_cons] at nodup
      have fresh := fresh_of_nodup nodup
      have shape : entries ++ first.entry :: printed.map (·.entry) =
          (entries ++ [first.entry]) ++ printed.map (·.entry) := by simp
      rw [shape] at nodup
      obtain ⟨pkg', bound', scans⟩ := ih (bound.store first.entry fresh) nodup
      refine ⟨pkg', by rwa [List.map_cons, shape], fun p => ?_⟩
      rw [← scans p, List.flatMap_cons, PrintedEntry.print, List.append_assoc, List.append_assoc,
        List.append_assoc, scanLines_fillers, ← List.append_assoc]
      exact scanLines_fresh bound first.entry fresh first.ending _

/-- A list with a repeated key has a first entry that repeats an earlier one. -/
theorem exists_first_repeat {entries : List Entry} (repeated : ¬ (keys entries).Nodup) :
    ∃ before entry after key, entries = before ++ entry :: after ∧ (keys before).Nodup ∧
      entry.key = some key ∧ key ∈ keys before := by
  induction entries using List.reverseRecOn with
  | nil => exact absurd List.nodup_nil repeated
  | append_singleton entries last ih =>
      by_cases earlier : (keys entries).Nodup
      · cases isKey : last.key with
        | none =>
            have same : keys (entries ++ [last]) = keys entries := by
              simp [keys, isKey]
            exact absurd (same ▸ earlier) repeated
        | some key =>
            refine ⟨entries, last, [], key, rfl, earlier, isKey, ?_⟩
            have shape : keys (entries ++ [last]) = keys entries ++ [key] := by
              simp [keys, isKey]
            by_contra fresh
            apply repeated
            rw [shape]
            exact List.nodup_append_comm.mp (List.nodup_cons.mpr ⟨fresh, earlier⟩)
      · obtain ⟨before, entry, after, key, shape, nodup, isKey, known⟩ := ih earlier
        exact ⟨before, entry, after ++ [last], key, by simp [shape], nodup, isKey, known⟩

/-- An empty package binds nothing. -/
theorem bound_zero (src : S8) : Bound [] { Pkg.zero with contents := some src } := by
  intro key value
  constructor
  · intro found
    cases key <;> cases found
  · intro holds
    obtain ⟨entry, member, _⟩ := holds
    cases member

/-- A printed file without repeated keys is read back. -/
theorem parsePackage_nodup (layout : Layout) (nodup : (keys layout.entries).Nodup) :
    ∃ pkg, parsePackage layout.print = .ok pkg ∧ Bound layout.entries pkg := by
  obtain ⟨pkg, bound, scans⟩ := scanLines_printed layout.printed (bound_zero layout.print) nodup
  refine ⟨pkg, ?_, bound⟩
  have trailing := scanLines_fillers pkg layout.trailing []
  rw [List.append_nil, scanLines_nil] at trailing
  rw [parsePackage]
  conv_lhs => rw [Layout.print.eq_def]
  exact (scans _).trans trailing

/-- The first entry that repeats an earlier one is reported. -/
theorem parsePackage_repeated (layout : Layout) {before : List Entry} {entry : Entry}
    {after : List Entry} (shape : layout.entries = before ++ entry :: after)
    (nodup : (keys before).Nodup) {key : Entry.Key} (isKey : entry.key = some key)
    (known : key ∈ keys before) : parsePackage layout.print = entry.duplicate := by
  obtain ⟨first, rest, printed, same, others⟩ := List.map_eq_append_iff.mp shape
  obtain ⟨own, behind, cut, isEntry, _⟩ := List.map_eq_cons_iff.mp others
  rw [← same] at nodup known
  obtain ⟨pkg, bound, scans⟩ := scanLines_printed first (bound_zero layout.print) nodup
  rw [parsePackage]
  have print : layout.print = first.flatMap PrintedEntry.print ++ (own.fillers.flatMap Filler.print ++
      (own.entry.line ++ own.ending.bytes ++
        (behind.flatMap PrintedEntry.print ++ layout.trailing.flatMap Filler.print))) := by
    rw [Layout.print, printed, cut]
    simp [PrintedEntry.print]
  conv_lhs =>
    arg 2
    rw [print]
  rw [scans, scanLines_fillers]
  rw [← isEntry] at isKey ⊢
  exact scanLines_repeated bound own.entry isKey known own.ending _

/-- A printed file is read back exactly when no variable and no known field occurs twice.
Otherwise the first entry that repeats an earlier one is reported. -/
theorem parsePackage_print (layout : Layout) :
    ((∃ pkg, parsePackage layout.print = .ok pkg ∧ Bound layout.entries pkg) ↔
      (keys layout.entries).Nodup) ∧
    ((keys layout.entries).Nodup ∨ ∃ before entry after,
      layout.entries = before ++ entry :: after ∧ (keys before).Nodup ∧
      (∃ key ∈ keys before, entry.key = some key) ∧
      parsePackage layout.print = entry.duplicate) := by
  have reported : ¬ (keys layout.entries).Nodup → ∃ before entry after,
      layout.entries = before ++ entry :: after ∧ (keys before).Nodup ∧
      (∃ key ∈ keys before, entry.key = some key) ∧
      parsePackage layout.print = entry.duplicate := by
    intro repeated
    obtain ⟨before, entry, after, key, shape, nodup, isKey, known⟩ := exists_first_repeat repeated
    exact ⟨before, entry, after, shape, nodup, ⟨key, known, isKey⟩,
      parsePackage_repeated layout shape nodup isKey known⟩
  constructor
  · constructor
    · intro returned
      obtain ⟨pkg, parsed, _⟩ := returned
      by_contra repeated
      obtain ⟨_, entry, _, _, _, _, duplicate⟩ := reported repeated
      rw [parsed] at duplicate
      cases entry <;> cases duplicate
    · exact parsePackage_nodup layout
  · exact or_iff_not_imp_left.mpr reported

end UConfig
