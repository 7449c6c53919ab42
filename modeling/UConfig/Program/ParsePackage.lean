/-
This file gives the scanner of package files.
A pointer into the file is the part of the file from there on.
-/

import UConfig.Program.Package

namespace UConfig

/-- The name of the duplicate is the one that is already bound. -/
inductive ParseResult where
  | ok (pkg : Pkg)
  | dupField (dupName : S8)
  | dupVariable (dupName : S8)

/-- The number of escape bytes at the beginning of the input. -/
def escaped (s : S8) : Nat :=
  if startsWith s (S "\\\n") then 2
  else if startsWith s (S "\\\r\n") then 3
  else 0

/-- The copy of the input with the escapes squashed out. -/
def stripEscapes : S8 → S8
  | [] => []
  | b :: rest =>
      if b = '\\'.toUInt8 then
        let r := escaped (b :: rest)
        if 0 < r then stripEscapes ((b :: rest).drop r)
        else if rest.head? = some '#'.toUInt8 then stripEscapes rest
        else b :: stripEscapes rest
      else b :: stripEscapes rest
termination_by s => s.length
decreasing_by all_goals (simp only [List.length_cons, List.length_drop]; omega)

/-- The bytes between two pointers. -/
def span (beg finish : S8) : S8 := beg.take (beg.length - finish.length)

/-- The rest of a comment ends with its newline. -/
def skipComment (p : S8) : S8 := (p.dropWhile (· != '\n'.toUInt8)).drop 1

structure NameScan where
  p : S8
  finish : S8
  c : UInt8

/-- The name ends before a newline or a separator, and whitespace never ends it. -/
def scanName (p finish : S8) (c : UInt8) : NameScan :=
  match p with
  | [] => ⟨[], finish, c⟩
  | c :: p =>
      if c = '\n'.toUInt8 ∨ c = '='.toUInt8 ∨ c = ':'.toUInt8 then ⟨p, finish, c⟩
      else scanName p (if whitespace c then finish else p) c

/-- Skip leading space, where newlines may be escaped with a backslash. -/
def skipLeading : S8 → S8
  | [] => []
  | c :: rest =>
      if c = '\\'.toUInt8 then
        let r := escaped (c :: rest)
        if 0 < r then skipLeading ((c :: rest).drop r) else c :: rest
      else if c = '\n'.toUInt8 ∨ !whitespace c then c :: rest
      else skipLeading rest
termination_by p => p.length
decreasing_by all_goals (simp only [List.length_cons, List.length_drop]; omega)

structure ValueScan where
  p : S8
  finish : S8
  cleanup : Bool

/-- An escaped comment sign is included, and an escaped newline is skipped over.
A backslash itself does not move the end of the value. -/
def scanValue : S8 → S8 → Bool → ValueScan
  | [], finish, cleanup => ⟨[], finish, cleanup⟩
  | c :: rest, finish, cleanup =>
      if c = '\n'.toUInt8 then ⟨c :: rest, finish, cleanup⟩
      else if c = '#'.toUInt8 then ⟨skipComment (c :: rest), finish, cleanup⟩
      else if c = '\\'.toUInt8 then
        if rest.head? = some '#'.toUInt8 then
          let r := escaped rest
          scanValue (rest.drop (r - 1 + 1)) (rest.drop 1) true
        else
          let r := escaped (c :: rest)
          scanValue ((c :: rest).drop (r - 1 + 1)) finish (cleanup || 0 < r)
      else scanValue rest (if whitespace c then finish else rest) cleanup
termination_by p => p.length
decreasing_by all_goals (simp only [List.length_cons, List.length_drop]; omega)

/-- A value with excess characters is a copy without its escapes. -/
def ValueScan.value (beg : S8) (scan : ValueScan) : S8 :=
  if scan.cleanup then stripEscapes (span beg scan.finish) else span beg scan.finish

/-- What the separator says about a line, where a duplicate ends the whole scan. -/
inductive Target where
  | skip
  | duplicate (result : ParseResult)
  | binding (name : S8)
  | field (field : Field)
  | unknown

/-- A binding is a duplicate when its string is not null, even when it is empty. -/
def openTarget (pkg : Pkg) (c : UInt8) (name : S8) : Target :=
  if c = '='.toUInt8 then
    if (((pkg.env.insert name).find name).getD none).isSome then .duplicate (.dupVariable name)
    else .binding name
  else if c = ':'.toUInt8 then
    match fieldByName name with
    | none => .unknown
    | some field =>
        if (pkg.field field).isSome then .duplicate (.dupField name) else .field field
  else .skip

/-- Unknown fields are dropped. -/
def Target.store (target : Target) (pkg : Pkg) (value : S8) : Pkg :=
  match target with
  | .binding name => { pkg with env := pkg.env.assign name (some value) }
  | .field known => pkg.setField known (some value)
  | _ => pkg

/-- One turn of the scanner goes on behind a line or returns a duplicate. -/
inductive LineScan where
  | next (p : S8) (pkg : Pkg)
  | done (result : ParseResult)

def scanLine (pkg : Pkg) (p : S8) : LineScan :=
  let p := p.dropWhile whitespace
  if p.head? = some '#'.toUInt8 then .next (skipComment p) pkg
  else
    let name := scanName p p 0
    match openTarget pkg name.c (span p name.finish) with
    | .skip => .next name.p pkg
    | .duplicate result => .done result
    | target =>
        let beg := skipLeading name.p
        let value := scanValue beg beg false
        .next value.p (target.store pkg (value.value beg))

/-- A comment is skipped with at least one byte. -/
theorem skipComment_length (p : S8) : (skipComment p).length ≤ p.length - 1 := by
  have dropped := (List.dropWhile_sublist (· != '\n'.toUInt8) (l := p)).length_le
  simp only [skipComment, List.length_drop]
  omega

/-- The blanks before an entry are skipped forwards. -/
theorem skipLeading_length (p : S8) : (skipLeading p).length ≤ p.length := by
  induction p using skipLeading.induct with
  | case1 => simp [skipLeading]
  | case2 rest r positive ih =>
      rw [skipLeading, if_pos rfl, if_pos positive]
      exact ih.trans (List.drop_sublist _ _).length_le
  | case3 rest r zero => rw [skipLeading, if_pos rfl, if_neg zero]
  | case4 c rest other stops =>
      rw [skipLeading, if_neg other, if_pos stops]
  | case5 c rest other goes ih =>
      rw [skipLeading, if_neg other, if_neg goes]
      exact ih.trans (Nat.le_succ _)

/-- The scan of a value never goes back. -/
theorem scanValue_length (p finish : S8) (cleanup : Bool) :
    (scanValue p finish cleanup).p.length ≤ p.length := by
  fun_induction scanValue p finish cleanup with
  | case1 => simp
  | case2 => simp
  | case3 finish cleanup rest notNewline =>
      exact (skipComment_length _).trans (Nat.sub_le _ _)
  | case4 _ _ _ _ _ _ _ ih =>
      exact ih.trans ((List.drop_sublist _ _).length_le.trans (Nat.le_succ _))
  | case5 _ _ _ _ _ _ _ ih => exact ih.trans (List.drop_sublist _ _).length_le
  | case6 _ _ _ _ _ _ _ ih => exact ih.trans (Nat.le_succ _)

/-- The scan of a name takes at least one byte. -/
theorem scanName_length (p finish : S8) (c : UInt8) :
    (scanName p finish c).p.length ≤ p.length - 1 := by
  induction p generalizing finish c with
  | nil => simp [scanName]
  | cons d p ih =>
      rw [scanName]
      split
      · simp
      · exact (ih _ d).trans (by simp only [List.length_cons]; omega)

/-- Every turn consumes at least one byte. -/
theorem scanLine_length {pkg pkg' : Pkg} {p q : S8} (nonempty : p ≠ [])
    (scan : scanLine pkg p = .next q pkg') : q.length < p.length := by
  have positive := List.length_pos_of_ne_nil nonempty
  have skipped := (List.dropWhile_sublist whitespace (l := p)).length_le
  have comment := skipComment_length (p.dropWhile whitespace)
  have name := scanName_length (p.dropWhile whitespace) (p.dropWhile whitespace) 0
  have leading := skipLeading_length (scanName (p.dropWhile whitespace) (p.dropWhile whitespace) 0).p
  simp only [scanLine] at scan
  split at scan
  · injection scan with same
    rw [← same]
    omega
  · split at scan
    · injection scan with same
      rw [← same]
      omega
    · cases scan
    · injection scan with same
      rw [← same]
      have value := scanValue_length
        (skipLeading (scanName (p.dropWhile whitespace) (p.dropWhile whitespace) 0).p)
        (skipLeading (scanName (p.dropWhile whitespace) (p.dropWhile whitespace) 0).p) false
      omega

def scanLines (pkg : Pkg) (p : S8) : ParseResult :=
  if p = [] then .ok pkg
  else
    match _ : scanLine pkg p with
    | .next q pkg => scanLines pkg q
    | .done result => result
termination_by p.length
decreasing_by exact scanLine_length ‹_› ‹_›

def parsePackage (src : S8) : ParseResult :=
  scanLines { Pkg.zero with contents := some src } src

end UConfig
