/-
This file proves that the POSIX and the Linux platform run the same program.
-/

import UConfig.Proof.Posix.Directories
import UConfig.Proof.Posix.Environment
import UConfig.Proof.Posix.Processes

namespace UConfig

/-- The directories as a whole, where one that cannot be opened has no names. -/
def storedListing (dirs : S8 → Option (List S8)) : Listing := fun path =>
  ((dirs path).getD []).filter (endsWith · (S ".pc"))

/-- The records of the kernel are those of the directories. -/
structure LinuxKernel.Holds (kernel : LinuxKernel) (dirs : S8 → Option (List S8)) : Prop where
  missing : ∀ path, dirs path = none → kernel.dents path = none
  present : ∀ path names, dirs path = some names → ∃ dents batches,
    kernel.dents path = some dents ∧ Fills dents batches ∧ batches.flatten.map DirEntry.name = names

/-- The process of the POSIX platform leaves this result when it is given enough turns. -/
def PosixKernel.Leads (kernel : PosixKernel) (room : S8 → Nat) (builtin : Builtin)
    (argv environ : List S8) (result : Except Stop Ended) : Prop :=
  ∃ fuel, posixMain fuel kernel room builtin argv environ = some result

/-- The process of the Linux platform leaves this result with the directories that its kernel
lists. -/
def LinuxKernel.Leads (kernel : LinuxKernel) (room : S8 → Nat) (builtin : Builtin)
    (argv environ : List S8) (result : Except Stop Ended) : Prop :=
  ∃ listing : Listing, (∀ path, kernel.Lists path (listing path)) ∧
    ∃ fuel, linuxMain fuel kernel listing room builtin argv environ = some result

/-- The library lists the package files of a directory. -/
theorem posixListing_eq (kernel : PosixKernel) :
    posixListing kernel = storedListing kernel.entries := by
  funext path
  rw [posixListing, storedListing]
  cases kernel.entries path <;> rfl

/-- The kernel's records list the same files. -/
theorem lists_iff {kernel : LinuxKernel} {dirs : S8 → Option (List S8)}
    (holds : kernel.Holds dirs) (listing : Listing) :
    (∀ path, kernel.Lists path (listing path)) ↔ listing = storedListing dirs := by
  rw [funext_iff]
  refine forall_congr' fun path => ?_
  cases stored : dirs path with
  | none =>
      have closed := holds.missing path stored
      simp [LinuxKernel.Lists, linuxListing, closed, storedListing, stored, eq_comm]
  | some names =>
      obtain ⟨dents, batches, opened, fills, named⟩ := holds.present path names stored
      rw [lists_records opened fills, packageFiles, named, storedListing, stored]
      rfl

/-- The files and directories as a whole. -/
def storedPlatform (files : S8 → Option S8) (dirs : S8 → Option (List S8)) : Platform where
  mapFile path := (files path).elim .notFound .ok
  listing := storedListing dirs

/-- Every file leaves room. -/
def Fits (files : S8 → Option S8) (room : S8 → Nat) : Prop :=
  ∀ path data, files path = some data → data.length < room path

/-- Files that leave room are read whole. -/
theorem storedFiles_fits {files : S8 → Option S8} {room : S8 → Nat} (fits : Fits files room)
    (dirs : S8 → Option (List S8)) :
    storedFiles files room = (storedPlatform files dirs).mapFile := by
  funext path
  rw [storedFiles, storedPlatform]
  dsimp only
  cases stored : files path with
  | none => rfl
  | some data => exact if_pos (fits path data stored)

/-- The POSIX and the Linux platform run the same program. When their kernels have the same files
and directories, every file fits the free memory that it is read into, and no write is refused, both
processes leave exactly what the main function finishes with on the whole files, however the kernels
divide reads, writes and records, and however the two differ in the free memory. -/
theorem platforms_agree {posix : PosixKernel} {linux : LinuxKernel} {files : S8 → Option S8}
    {dirs : S8 → Option (List S8)} {room room' : S8 → Nat} {environ : List S8}
    (serves : posix.Serves files) (serves' : linux.Serves files)
    (fits : Fits files room) (fits' : Fits files room')
    (holds : posix.entries = dirs) (holds' : linux.Holds dirs)
    (takes : posix.Takes) (takes' : linux.Takes) (plain : PlainEnviron environ)
    (builtin : Builtin) (argv : List S8) (result : Except Stop Ended) :
    (posix.Leads room builtin argv environ result ↔ ∃ outcome,
      Finishes (storedPlatform files dirs) (posixConfig builtin argv environ) outcome ∧
        result = outcome.map Exit.ended) ∧
    (linux.Leads room' builtin argv environ result ↔
      posix.Leads room builtin argv environ result) := by
  have posixRuns : posix.Leads room builtin argv environ result ↔ ∃ outcome,
      Finishes (storedPlatform files dirs) (posixConfig builtin argv environ) outcome ∧
        result = outcome.map Exit.ended := by
    have runs : posix.Leads room builtin argv environ result ↔ Leads posix.toKernel
        ⟨osMapFile posix.toKernel room, posixListing posix⟩ (posixConfig builtin argv environ)
        result := Iff.rfl
    rw [runs, leads_takes takes, osMapFile_eq serves, storedFiles_fits fits dirs,
      posixListing_eq, holds]
    rfl
  refine ⟨posixRuns, ?_⟩
  rw [posixRuns]
  constructor
  · rintro ⟨listing, lists, runs⟩
    have runs' : Leads linux.toKernel ⟨osMapFile linux.toKernel room', listing⟩
        (linuxConfig builtin argv environ) result := runs
    rw [leads_takes takes', osMapFile_eq serves', storedFiles_fits fits' dirs,
      (lists_iff holds' listing).mp lists, plain.config_eq] at runs'
    exact runs'
  · intro finishes
    refine ⟨storedListing dirs, (lists_iff holds' _).mpr rfl, ?_⟩
    have runs : Leads linux.toKernel ⟨osMapFile linux.toKernel room', storedListing dirs⟩
        (linuxConfig builtin argv environ) result := by
      rw [leads_takes takes', osMapFile_eq serves', storedFiles_fits fits' dirs, plain.config_eq]
      exact finishes
    exact runs

/-- A small system with one directory, which has one package file. -/
def smallFiles (path : S8) : Option S8 :=
  if path = S "d/a.pc" ++ [0] then some (S "Name:\nDescription:\nVersion:\n") else none

def smallDirs (path : S8) : Option (List S8) :=
  if path = S "d" ++ [0] then some [S ".", S "a.pc", S "b.txt"] else none

def smallPosix : PosixKernel := { pieceKernel 2 smallFiles with entries := smallDirs }

/-- An entry whose record has no padding. -/
def plainEntry (name : S8) (terminated : 0 ∉ name) (short : name.length < 16384) : DirEntry where
  header := List.replicate 16 0
  kind := 8
  name := name
  padding := []
  header_length := rfl
  terminated := terminated
  short := by
    rw [List.length_nil]
    omega

def smallBatches : List (List DirEntry) :=
  [[plainEntry (S ".") (by decide) (by decide)],
    [plainEntry (S "a.pc") (by decide) (by decide), plainEntry (S "b.txt") (by decide) (by decide)]]

def smallLinux : LinuxKernel :=
  { pieceKernel 1 smallFiles with
    dents := fun path => if path = S "d" ++ [0] then some (batchCalls smallBatches) else none }

/-- The small kernel holds its directories. -/
theorem smallLinux_holds : smallLinux.Holds smallDirs where
  missing path absent := by
    simp only [smallDirs, ite_eq_right_iff, reduceCtorEq, imp_false] at absent
    exact if_neg absent
  present path names stored := by
    by_cases isDir : path = S "d" ++ [0]
    · rw [smallDirs, if_pos isDir] at stored
      cases stored
      exact ⟨_, smallBatches, if_pos isDir, fills_batchCalls (by decide) (by decide), rfl⟩
    · rw [smallDirs, if_neg isDir] at stored
      cases stored

/-- A listing of one directory, with records that need padding. -/
theorem platforms_agree_small :
    smallLinux.Leads (fun _ => 100) ⟨[], [], []⟩ [S "pkg-config", S "--list-package-names"]
      [S "PKG_CONFIG_LIBDIR=d"] (.ok ⟨true, (S "a\n").map (.stdout, ·)⟩) := by
  have fits : Fits smallFiles fun _ => 100 := by
    intro path data stored
    rw [smallFiles] at stored
    split at stored
    case isFalse => cases stored
    case isTrue =>
      cases stored
      show (S "Name:\nDescription:\nVersion:\n").length < 100
      decide
  have plain : PlainEnviron [S "PKG_CONFIG_LIBDIR=d"] := by
    constructor
    · intro var
      cases var <;> decide
    · intro entry member var _
      rw [List.mem_singleton.mp member]
      decide
  have finishes : Finishes (storedPlatform smallFiles smallDirs)
      (posixConfig ⟨[], [], []⟩ [S "pkg-config", S "--list-package-names"]
        [S "PKG_CONFIG_LIBDIR=d"]) (.ok ⟨true, [S "a\n"], []⟩) :=
    finishes_of_exit (by decide +kernel : exitOf (uconfig 20 _ _) = _)
  have agree := @platforms_agree smallPosix smallLinux _ _ _ _ _
    (serves_pieceKernel (by decide) smallFiles) (serves_pieceKernel (by decide) smallFiles)
    fits fits rfl smallLinux_holds (takes_pieceKernel (by decide) _)
    (takes_pieceKernel (by decide) _) plain ⟨[], [], []⟩
    [S "pkg-config", S "--list-package-names"]
    (.ok ⟨true, (S "a\n").map (.stdout, ·)⟩)
  exact agree.2.mpr (agree.1.mpr ⟨_, finishes, rfl⟩)

end UConfig
