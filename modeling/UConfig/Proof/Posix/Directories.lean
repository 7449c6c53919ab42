/-
This file proves that the records of a directory are read back in any batches.
-/

import UConfig.Program.Linux

namespace UConfig

/-- An entry of a directory, whose record also has members that are not used. -/
structure DirEntry where
  header : S8
  kind : UInt8
  name : S8
  padding : S8
  header_length : header.length = 16
  terminated : 0 ∉ name
  short : 20 + name.length + padding.length < 32768

namespace DirEntry

variable (e : DirEntry)

def size : Nat := 20 + e.name.length + e.padding.length

/-- The size of the record is stored in two bytes. -/
def record : S8 :=
  e.header ++ UInt8.ofNat (e.size % 256) :: UInt8.ofNat (e.size / 256) :: e.kind ::
    (e.name ++ 0 :: e.padding)

/-- A record has the size that it says. -/
theorem record_length : e.record.length = e.size := by
  have header := e.header_length
  simp only [record, size, List.length_append, List.length_cons]
  omega

/-- No record is empty. -/
theorem record_ne_nil : e.record ≠ [] := by
  intro empty
  have size := e.record_length
  rw [empty, DirEntry.size, List.length_nil] at size
  omega

/-- The size of a record stands behind its header. -/
theorem record_layout (before after : S8) : before ++ (e.record ++ after) =
    (before ++ e.header) ++ UInt8.ofNat (e.size % 256) :: UInt8.ofNat (e.size / 256) :: e.kind ::
      (e.name ++ 0 :: (e.padding ++ after)) := by
  simp [record]

/-- The header of a record has 16 bytes. -/
theorem layout_length (before : S8) : before.length + 16 = (before ++ e.header).length := by
  rw [List.length_append, e.header_length]

/-- The two bytes are read back as the size. -/
theorem shortAt_record (before after : S8) :
    shortAt (before ++ (e.record ++ after)) (before.length + 16) = some (e.size : Int) := by
  have bound : e.size < 32768 := e.short
  have value : (UInt8.ofNat (e.size % 256)).toNat + 256 * (UInt8.ofNat (e.size / 256)).toNat =
      e.size := by
    rw [UInt8.toNat_ofNat', UInt8.toNat_ofNat']
    omega
  have fits : (BitVec.ofNat 16 e.size).toNat = e.size := by
    rw [BitVec.toNat_ofNat]
    omega
  rw [e.record_layout, e.layout_length, shortAt, List.getElem?_append_right (Nat.le_refl _),
    List.getElem?_append_right (Nat.le_add_right _ 1), Nat.sub_self, Nat.add_sub_cancel_left]
  simp only [List.getElem?_cons_zero, List.getElem?_cons_succ, Option.bind_eq_bind,
    Option.bind_some]
  rw [value, BitVec.toInt_eq_toNat_of_lt (by omega), fits]
  rfl

/-- The name is read back up to its terminator. -/
theorem name_record (before after : S8) :
    s8FromCStr ((before ++ (e.record ++ after)).drop (before.length + 19)) = some e.name := by
  have rest : (before ++ (e.record ++ after)).drop (before.length + 19) =
      e.name ++ 0 :: (e.padding ++ after) := by
    rw [e.record_layout, ← Nat.add_assoc before.length 16 3, e.layout_length,
      List.drop_length_add_append]
    rfl
  have plain : ∀ c ∈ e.name, (c != 0) = true := by
    intro c member
    exact bne_iff_ne.mpr fun zero => e.terminated (zero ▸ member)
  rw [rest, s8FromCStr, if_pos (by simp), List.takeWhile_append_of_pos plain]
  simp

/-- The name of a record is read at its place. -/
theorem dentsAt_record (before after : S8) :
    dentsAt (before ++ (e.record ++ after)) before.length = some ⟨e.size, e.name⟩ := by
  rw [dentsAt, if_neg (by omega), Int.toNat_natCast, e.shortAt_record, e.name_record]
  rfl

end DirEntry

/-- The records of entries one after the other. -/
def records (batch : List DirEntry) : S8 := batch.flatMap DirEntry.record

/-- The names of the package files among the entries. -/
def packageFiles (batch : List DirEntry) : List S8 :=
  (batch.map DirEntry.name).filter (endsWith · (S ".pc"))

/-- Calls that fill the buffer with the records of one batch after the other. The call behind them
fails or fills nothing. -/
structure Fills (dents : (call : Nat) → Option { buf : S8 // buf.length ≤ dentsCap })
    (batches : List (List DirEntry)) : Prop where
  nonempty : ∀ batch ∈ batches, batch ≠ []
  filled : ∀ i batch, batches[i]? = some batch →
    ∃ buf, dents i = some buf ∧ buf.1 = records batch
  last : ∀ buf, dents batches.length = some buf → buf.1 = []

variable {dents : (call : Nat) → Option { buf : S8 // buf.length ≤ dentsCap }}

/-- The records that are left in the buffer are read one by one. -/
theorem runs_records (batch : List DirEntry) (calls : Nat) (before : S8) (files : List S8) :
    Loop.Runs (listingBody dents) ⟨calls, before ++ records batch, before.length, files⟩
      ⟨calls, before ++ records batch, (before ++ records batch).length,
        files ++ packageFiles batch⟩ := by
  induction batch generalizing before files with
  | nil => simpa [records, packageFiles] using Relation.ReflTransGen.refl
  | cons e batch ih =>
      have whole : before ++ records (e :: batch) = before ++ (e.record ++ records batch) := rfl
      have inside : before.length < (before ++ records (e :: batch)).length := by
        have positive := List.length_pos_iff.mpr e.record_ne_nil
        rw [whole, List.length_append, List.length_append]
        omega
      have read := e.dentsAt_record before (records batch)
      rw [← whole] at read
      have next := ih (before ++ e.record)
        (if endsWith e.name (S ".pc") then files ++ [e.name] else files)
      have named : (if endsWith e.name (S ".pc") then files ++ [e.name] else files) ++
          packageFiles batch = files ++ packageFiles (e :: batch) := by
        simp only [packageFiles, List.map_cons, List.filter_cons]
        split <;> simp
      rw [List.append_assoc, ← whole, named, List.length_append, e.record_length,
        Int.natCast_add] at next
      refine .head ?_ next
      rw [Loop.Turn, listingBody, if_pos (Int.ofNat_lt.mpr inside), read]

/-- When the buffer has been read, the batches that are left are read one by one. -/
theorem ends_batches {batches : List (List DirEntry)} (fills : Fills dents batches)
    (done rest : List (List DirEntry)) (split : done ++ rest = batches) (buf : S8)
    (files : List S8) :
    Loop.Ends (listingBody dents) ⟨done.length, buf, buf.length, files⟩
      (some (files ++ packageFiles rest.flatten)) := by
  induction rest generalizing done buf files with
  | nil =>
      rw [List.append_nil] at split
      refine ⟨_, .refl, ?_⟩
      rw [listingBody, if_neg (Int.lt_irrefl _), split]
      cases call : dents batches.length with
      | none => simp [packageFiles]
      | some filled => simp [packageFiles, fills.last filled call]
  | cons batch rest ih =>
      have isNext : batches[done.length]? = some batch := by
        rw [← split, List.getElem?_append_right (Nat.le_refl _), Nat.sub_self]
        rfl
      obtain ⟨filled, call, text⟩ := fills.filled _ _ isNext
      have some : ¬filled.1.length < 1 := by
        have entries := fills.nonempty batch (List.mem_of_getElem? isNext)
        obtain ⟨e, more, rfl⟩ := List.exists_cons_of_ne_nil entries
        rw [text, records, List.flatMap_cons, List.length_append, e.record_length, DirEntry.size]
        omega
      have next := ih (done ++ [batch]) (by rw [List.append_assoc]; exact split) (records batch)
        (files ++ packageFiles batch)
      refine .after (.head ?_ (runs_records batch (done.length + 1) [] files)) ?_
      · rw [Loop.Turn, listingBody, if_neg (Int.lt_irrefl _), call]
        dsimp only
        rw [if_neg some, text]
        rfl
      · simpa [packageFiles, List.map_append] using next

/-- The kernel lists these package files when the loop is given enough turns. -/
def LinuxKernel.Lists (kernel : LinuxKernel) (path : S8) (names : List S8) : Prop :=
  ∃ fuel, linuxListing fuel kernel path = some (some names)

/-- The kernel lists the package files of all its batches. -/
theorem lists_records {kernel : LinuxKernel} {path : S8} (opened : kernel.dents path = some dents)
    {batches : List (List DirEntry)} (fills : Fills dents batches) (names : List S8) :
    kernel.Lists path names ↔ names = packageFiles batches.flatten := by
  have ends : Loop.Ends (listingBody dents) listingStart
      (some (packageFiles batches.flatten)) := ends_batches fills [] batches rfl [] []
  have reads : ∀ fuel, linuxListing fuel kernel path =
      Loop.run (listingBody dents) fuel listingStart := by
    intro fuel
    rw [linuxListing, opened]
  constructor
  · rintro ⟨fuel, returned⟩
    rw [reads] at returned
    exact Option.some.inj ((Loop.ends_of_run returned).unique ends)
  · rintro rfl
    obtain ⟨fuel, returned⟩ := Loop.run_of_ends ends
    exact ⟨fuel, (reads fuel).trans returned⟩

/-- Calls that have one batch each. -/
def batchCalls (batches : List (List DirEntry)) (call : Nat) :
    Option { buf : S8 // buf.length ≤ dentsCap } :=
  batches[call]?.bind fun batch =>
    if fits : (records batch).length ≤ dentsCap then some ⟨records batch, fits⟩ else none

/-- The calls of such batches fill the buffer one by one. -/
theorem fills_batchCalls {batches : List (List DirEntry)} (nonempty : ∀ batch ∈ batches, batch ≠ [])
    (fits : ∀ batch ∈ batches, (records batch).length ≤ dentsCap) :
    Fills (batchCalls batches) batches where
  nonempty := nonempty
  filled i batch isAt := by
    refine ⟨⟨records batch, fits batch (List.mem_of_getElem? isAt)⟩, ?_, rfl⟩
    rw [batchCalls, isAt, Option.bind_some, dif_pos (fits batch (List.mem_of_getElem? isAt))]
  last buf call := by
    rw [batchCalls, List.getElem?_eq_none (Nat.le_refl _)] at call
    cases call

end UConfig
