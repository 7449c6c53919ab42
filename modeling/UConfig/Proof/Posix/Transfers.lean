/-
This file proves that reads and writes of any sizes transfer whole files and whole outputs.
-/

import UConfig.Program.Posix
import UConfig.Proof.Main.Run

namespace UConfig

open Loop (Grows)

/-- Each read returns a part of the data at its position, and nothing only at the end. -/
def ReadsFrom (read : ReadCall) (data : S8) : Prop :=
  ∀ pos request, pos ≤ data.length → 0 < request →
    ∃ chunk, read pos request = some chunk ∧ chunk.1 <+: data.drop pos ∧
      (chunk.1 = [] → pos = data.length)

/-- However long the answers are, the loop reads the data until the room is filled. -/
theorem readFile_eq {read : ReadCall} {data : S8} (reads : ReadsFrom read data) (cap : Nat)
    {got : S8} (part : got <+: data) (fits : got.length ≤ cap) :
    readFile read cap got = data.take cap := by
  fun_induction readFile read cap got with
  | case1 got room failed =>
      obtain ⟨chunk, answered, _⟩ := reads got.length _ part.length_le (Nat.sub_pos_of_lt room)
      rw [failed] at answered
      cases answered
  | case2 got room chunk answered nothing =>
      obtain ⟨chunk', answered', _, ends⟩ :=
        reads got.length _ part.length_le (Nat.sub_pos_of_lt room)
      rw [answered] at answered'
      cases answered'
      have whole : got = data :=
        part.eq_of_length (ends (List.length_eq_zero_iff.mp (Nat.lt_one_iff.mp nothing)))
      rw [← whole, List.take_of_length_le fits]
  | case3 got room chunk answered something ih =>
      obtain ⟨chunk', answered', next, _⟩ :=
        reads got.length _ part.length_le (Nat.sub_pos_of_lt room)
      rw [answered] at answered'
      cases answered'
      have more : got ++ chunk.1 <+: data := by
        obtain ⟨rest, rfl⟩ := part
        rw [List.drop_left] at next
        exact (List.prefix_append_right_inj got).mpr next
      refine ih more ?_
      have bound := chunk.2
      rw [List.length_append]
      omega
  | case4 got full =>
      have filled : got.length = cap := by omega
      rw [List.prefix_iff_eq_take.mp part, filled]

/-- The kernel opens the files that there are and reads their data. -/
structure Kernel.Serves (kernel : Kernel) (files : S8 → Option S8) : Prop where
  missing : ∀ path, files path = none → kernel.file path = none
  present : ∀ path data, files path = some data →
    ∃ read, kernel.file path = some read ∧ ReadsFrom read data

/-- The files as a whole, where a file is too large when it leaves no room. -/
def storedFiles (files : S8 → Option S8) (room : S8 → Nat) : MapFile := fun path =>
  match files path with
  | none => .notFound
  | some data => if data.length < room path then .ok data else .readErr

/-- However the kernel divides its reads, the file is stored whole or too large. -/
theorem osMapFile_eq {kernel : Kernel} {files : S8 → Option S8} (serves : kernel.Serves files)
    (room : S8 → Nat) : osMapFile kernel room = storedFiles files room := by
  funext path
  rw [osMapFile, storedFiles]
  cases stored : files path with
  | none => rw [serves.missing path stored]
  | some data =>
      obtain ⟨read, opened, reads⟩ := serves.present path data stored
      have text := readFile_eq reads (room path) List.nil_prefix (Nat.zero_le _)
      rw [opened]
      dsimp only
      rw [text, List.length_take]
      by_cases fits : data.length < room path
      · rw [if_neg (by omega), if_pos fits, List.take_of_length_le (Nat.le_of_lt fits)]
      · rw [if_pos (by omega), if_neg fits]

/-- The answers of a kernel that transfers only so many bytes at once. -/
def pieceRead (size : Nat) (data : S8) : ReadCall := fun pos request =>
  some ⟨(data.drop pos).take (min request size), by
    rw [List.length_take]
    omega⟩

/-- Pieces of a positive size read the data. -/
theorem readsFrom_pieceRead {size : Nat} (positive : 0 < size) (data : S8) :
    ReadsFrom (pieceRead size data) data := by
  intro pos request inside asked
  refine ⟨_, rfl, List.take_prefix _ _, fun empty => ?_⟩
  have size' := congrArg List.length empty
  rw [List.length_take, List.length_drop, List.length_nil] at size'
  omega

/-- The bytes that the writes are for. -/
def bytesOf (writes : List (Descriptor × S8)) : List (Descriptor × UInt8) :=
  writes.flatMap fun w => w.2.map (w.1, ·)

/-- The next write fails, which is for the first of the bytes that are missing. -/
def Kernel.Refuses (kernel : Kernel) (d : Written) (missing : List (Descriptor × UInt8)) : Prop :=
  ∃ fd s rest, s ≠ [] ∧ missing = s.map (fd, ·) ++ rest ∧ kernel.write d.calls fd s = none

/-- Every write takes something. -/
def Kernel.Takes (kernel : Kernel) : Prop :=
  ∀ call fd s, s ≠ [] → ∃ r, kernel.write call fd s = some r ∧ 0 < r.val

/-- A kernel that takes something refuses nothing. -/
theorem Kernel.Takes.not_refuses {kernel : Kernel} (takes : kernel.Takes) (d : Written)
    (missing : List (Descriptor × UInt8)) : ¬kernel.Refuses d missing := by
  rintro ⟨fd, s, rest, nonempty, _, failed⟩
  obtain ⟨r, taken, _⟩ := takes d.calls fd s nonempty
  rw [failed] at taken
  cases taken

/-- Something is missing when a write is refused. -/
theorem Kernel.Refuses.ne_nil {kernel : Kernel} {d : Written}
    {missing : List (Descriptor × UInt8)} (refuses : kernel.Refuses d missing) : missing ≠ [] := by
  obtain ⟨fd, s, rest, nonempty, rfl, _⟩ := refuses
  simpa using fun empty => absurd empty nonempty

/-- More bytes behind the missing ones are missing as well. -/
theorem Kernel.Refuses.append {kernel : Kernel} {d : Written}
    {missing : List (Descriptor × UInt8)} (refuses : kernel.Refuses d missing)
    (more : List (Descriptor × UInt8)) : kernel.Refuses d (missing ++ more) := by
  obtain ⟨fd, s, rest, nonempty, rfl, failed⟩ := refuses
  exact ⟨fd, s, rest ++ more, nonempty, List.append_assoc _ _ _, failed⟩

/-- Either all bytes have been written, or a write of this run has failed and the bytes from there
on are missing. -/
inductive Delivery (kernel : Kernel) (d : Written) (bytes : List (Descriptor × UInt8)) :
    Except Written Written → Prop where
  | whole {d' : Written} (text : d'.bytes = d.bytes ++ bytes) : Delivery kernel d bytes (.ok d')
  | cut {d' : Written} {part missing : List (Descriptor × UInt8)} (split : part ++ missing = bytes)
      (text : d'.bytes = d.bytes ++ part) (refuses : kernel.Refuses d' missing) :
      Delivery kernel d bytes (.error d')

/-- The bytes have been written in part, and the rest of them is in the string. -/
structure Moves (fd : Descriptor) (start state : WriteState) : Prop where
  kept : start.d.bytes <+: state.d.bytes
  total : state.d.bytes ++ state.s.map (fd, ·) = start.d.bytes ++ start.s.map (fd, ·)

/-- One turn moves bytes from the string to the descriptor. -/
theorem Moves.turn {kernel : Kernel} {fd : Descriptor} {start state next : WriteState}
    (moves : Moves fd start state) (turn : writeBody kernel fd state = .inl next) :
    Moves fd start next := by
  rw [writeBody] at turn
  split at turn
  case isFalse => cases turn
  case isTrue =>
    split at turn
    case h_1 => cases turn
    case h_2 r taken =>
      cases turn
      refine ⟨moves.kept.trans (List.prefix_append _ _), ?_⟩
      rw [← moves.total, List.append_assoc, ← List.map_append, List.take_append_drop]

/-- A string is written whole or up to a write that has failed. -/
theorem write_outcome {kernel : Kernel} {fd : Descriptor} {d : Written} {s : S8}
    {result : Except Written Written}
    (ends : Loop.Ends (writeBody kernel fd) ⟨d, s⟩ result) :
    Delivery kernel d (s.map (fd, ·)) result := by
  obtain ⟨last, runs, leaves⟩ := ends
  have moves : Moves fd ⟨d, s⟩ last :=
    Loop.Runs.invariant (fun _ _ => Moves.turn) ⟨List.prefix_refl _, rfl⟩ runs
  obtain ⟨⟨part, sent⟩, total⟩ := moves
  rw [← sent, List.append_assoc] at total
  have split := List.append_cancel_left total
  rw [writeBody] at leaves
  split at leaves
  case isFalse empty =>
    cases leaves
    have done : last.s = [] := List.length_eq_zero_iff.mp (not_not.mp empty)
    rw [done, List.map_nil, List.append_nil] at split
    exact .whole (by rw [← sent, split])
  case isTrue nonempty =>
    split at leaves
    case h_2 => cases leaves
    case h_1 failed =>
      cases leaves
      have some : last.s ≠ [] := fun empty => nonempty (by rw [empty]; rfl)
      exact .cut split sent.symm ⟨fd, last.s, [], some, (List.append_nil _).symm, failed⟩

/-- A kernel that takes something of every write takes everything in the end. -/
theorem write_takes {kernel : Kernel} (takes : kernel.Takes) (fd : Descriptor) (d : Written)
    (s : S8) : ∃ d', Loop.Ends (writeBody kernel fd) ⟨d, s⟩ (.ok d') := by
  have decreases : ∀ state next, writeBody kernel fd state = .inl next →
      next.s.length < state.s.length := by
    intro state next turn
    rw [writeBody] at turn
    split at turn
    case isFalse => cases turn
    case isTrue nonempty =>
      obtain ⟨r, taken, positive⟩ :=
        takes state.d.calls fd state.s fun empty => nonempty (by rw [empty]; rfl)
      rw [taken] at turn
      cases turn
      rw [List.length_drop]
      omega
  obtain ⟨result, ends⟩ := Loop.exists_ends (fun state : WriteState => state.s.length) decreases ⟨d, s⟩
  cases write_outcome ends with
  | whole => exact ⟨_, ends⟩
  | cut _ _ refuses => exact absurd refuses (takes.not_refuses _ _)

/-- More fuel does not change the writes. -/
theorem grows_posixWrites (kernel : Kernel) (writes : List (Descriptor × S8)) (d : Written) :
    Grows fun fuel => posixWrites fuel kernel writes d := by
  induction writes generalizing d with
  | nil => exact Loop.grows_const _
  | cons w writes ih =>
      refine (Loop.grows_run (writeBody kernel w.1) ⟨d, w.2⟩).bind fun result => ?_
      cases result with
      | error d' => exact Loop.grows_const _
      | ok d' => exact ih d'

/-- All strings are written whole or up to a write that has failed. -/
theorem writes_outcome {kernel : Kernel} {writes : List (Descriptor × S8)} {d : Written}
    {fuel : Nat} {result : Except Written Written}
    (returned : posixWrites fuel kernel writes d = some result) :
    Delivery kernel d (bytesOf writes) result := by
  induction writes generalizing d with
  | nil =>
      cases returned
      exact .whole (List.append_nil _).symm
  | cons w writes ih =>
      obtain ⟨first, written, rest⟩ := Option.bind_eq_some_iff.mp returned
      cases write_outcome (Loop.ends_of_run written) with
      | cut split text refuses =>
          cases rest
          refine .cut ?_ text (refuses.append (bytesOf writes))
          rw [← List.append_assoc, split]
          rfl
      | whole text =>
          cases ih rest with
          | whole text' => exact .whole (by rw [text', text, List.append_assoc]; rfl)
          | cut split text' refuses =>
              refine .cut ?_ (by rw [text', text, List.append_assoc]) refuses
              rw [List.append_assoc, split]
              rfl

/-- A kernel that takes something writes all strings. -/
theorem writes_takes {kernel : Kernel} (takes : kernel.Takes) (writes : List (Descriptor × S8))
    (d : Written) : ∃ fuel d', posixWrites fuel kernel writes d = some (.ok d') := by
  induction writes generalizing d with
  | nil => exact ⟨0, d, rfl⟩
  | cons w writes ih =>
      obtain ⟨middle, ends⟩ := write_takes takes w.1 d w.2
      obtain ⟨fuel, written⟩ := Loop.run_of_ends ends
      obtain ⟨other, d', rest⟩ := ih middle
      refine ⟨max fuel other, d', Option.bind_eq_some_iff.mpr ⟨.ok middle, ?_, ?_⟩⟩
      · exact Loop.run_mono (Nat.le_max_left _ _) written
      · exact grows_posixWrites kernel writes middle _ _ _ (Nat.le_max_right _ _) rest

/-- A kernel that has these files and transfers only so many bytes at once. -/
def pieceKernel (size : Nat) (files : S8 → Option S8) : Kernel where
  file path := (files path).map (pieceRead size)
  write _ _ s := some ⟨min s.length size, by omega⟩

/-- Such a kernel serves its files. -/
theorem serves_pieceKernel {size : Nat} (positive : 0 < size) (files : S8 → Option S8) :
    (pieceKernel size files).Serves files where
  missing path absent := by simp [pieceKernel, absent]
  present path data stored :=
    ⟨pieceRead size data, by simp [pieceKernel, stored], readsFrom_pieceRead positive data⟩

/-- Such a kernel takes something of every write. -/
theorem takes_pieceKernel {size : Nat} (positive : 0 < size) (files : S8 → Option S8) :
    (pieceKernel size files).Takes := by
  intro call fd s nonempty
  have some := List.length_pos_iff.mpr nonempty
  exact ⟨_, rfl, Nat.lt_min.mpr ⟨some, positive⟩⟩

end UConfig
