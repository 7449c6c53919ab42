/-
This file gives the scanner of package files with its pointers.
Every read, every write and every assertion is checked, and a pointer into the file is its
distance from the beginning of the file.
-/

import UConfig.Program.ParsePackage
import UConfig.Library.Loop

namespace UConfig

namespace Checked

def deref (src : S8) (p : Nat) : Except Stop UInt8 :=
  match src[p]? with
  | none => .error .fault
  | some c => .ok c

/-- A string that is a part of the file. -/
structure View where
  s : Nat
  len : Nat

/-- A string that reaches outside of the file is a fault even when nobody reads it. -/
def s8Span (src : S8) (beg finish : Nat) : Except Stop View :=
  if beg ≤ finish ∧ finish ≤ src.length then .ok ⟨beg, finish - beg⟩ else .error .fault

def cutHead (s : View) (off : Nat) : Except Stop View :=
  if off ≤ s.len then .ok ⟨s.s + off, s.len - off⟩ else .error .fault

def takeHead (s : View) (len : Nat) : Except Stop View :=
  if len ≤ s.len then .ok { s with len := len } else .error .fault

/-- The bytes of a string are read from its first to its last. -/
def View.read (src : S8) (s : View) : Except Stop S8 :=
  if s.s + s.len ≤ src.length then .ok ((src.drop s.s).take s.len) else .error .fault

def startsWith (src : S8) (s : View) (head : S8) : Except Stop Bool :=
  if head.length ≤ s.len then do
    let taken ← takeHead s head.length
    let bytes ← taken.read src
    return bytes == head
  else return false

def escaped (src : S8) (s : View) : Except Stop Nat := do
  if ← startsWith src s (S "\\\n") then return 2
  else if ← startsWith src s (S "\\\r\n") then return 3
  else return 0

/-- A comment sign is only looked for before the end. -/
def commentSign (src : S8) (p e : Nat) : Except Stop Bool :=
  if p < e then do
    let c ← deref src p
    return c == '#'.toUInt8
  else return false

/-- The copy of a string so far, where `len` bytes have been written. -/
structure Copy where
  c : S8
  len : Nat

def Copy.store (copy : Copy) (b : UInt8) : Except Stop Copy :=
  if copy.len < copy.c.length then .ok ⟨copy.c.set copy.len b, copy.len + 1⟩ else .error .fault

def copyLoop (src : S8) (s : View) (i : Nat) (copy : Copy) : Except Stop Copy :=
  if i < s.len then do
    let b ← deref src (s.s + i)
    if b = '\\'.toUInt8 then
      let ahead ← cutHead s i
      let r ← escaped src ahead
      if 0 < r then copyLoop src s (i + (r - 1) + 1) copy
      else if ← commentSign src (s.s + (i + 1)) (s.s + s.len) then copyLoop src s (i + 1) copy
      else
        let copy ← copy.store b
        copyLoop src s (i + 1) copy
    else
      let copy ← copy.store b
      copyLoop src s (i + 1) copy
  else return copy
termination_by s.len - i

/-- The copy starts with as many zero bytes as the string is long. -/
def stripEscapes (src : S8) (s : View) : Except Stop S8 := do
  let copy ← copyLoop src s 0 ⟨List.replicate s.len 0, 0⟩
  let head ← takeHead ⟨0, s.len⟩ copy.len
  head.read copy.c

def skipSpace (src : S8) (p : Nat) : Except Stop Nat :=
  if p < src.length then do
    let c ← deref src p
    if whitespace c then skipSpace src (p + 1) else return p
  else return p
termination_by src.length - p

def skipComment (src : S8) (p : Nat) : Except Stop Nat :=
  if p < src.length then do
    let c ← deref src p
    if c = '\n'.toUInt8 then return p + 1 else skipComment src (p + 1)
  else return p
termination_by src.length - p

structure NameScan where
  p : Nat
  finish : Nat
  c : UInt8

def scanName (src : S8) (p finish : Nat) (c : UInt8) : Except Stop NameScan :=
  if p < src.length then do
    let c ← deref src p
    if c = '\n'.toUInt8 ∨ c = '='.toUInt8 ∨ c = ':'.toUInt8 then return ⟨p + 1, finish, c⟩
    else scanName src (p + 1) (if whitespace c then finish else p + 1) c
  else return ⟨p, finish, c⟩
termination_by src.length - p

def skipLeading (src : S8) (p : Nat) : Except Stop Nat :=
  if p < src.length then do
    let c ← deref src p
    if c = '\\'.toUInt8 then
      let ahead ← s8Span src p src.length
      let r ← escaped src ahead
      if 0 < r then skipLeading src (p + r) else return p
    else if c = '\n'.toUInt8 ∨ !whitespace c then return p
    else skipLeading src (p + 1)
  else return p
termination_by src.length - p

structure ValueScan where
  p : Nat
  finish : Nat
  cleanup : Bool

def scanValue (src : S8) (p finish : Nat) (cleanup : Bool) : Except Stop ValueScan :=
  if p < src.length then do
    let c ← deref src p
    if c = '\n'.toUInt8 then return ⟨p, finish, cleanup⟩
    else if c = '#'.toUInt8 then
      let p ← skipComment src p
      return ⟨p, finish, cleanup⟩
    else if c = '\\'.toUInt8 then
      if ← commentSign src (p + 1) src.length then
        let ahead ← s8Span src (p + 1) src.length
        let r ← escaped src ahead
        scanValue src (p + 1 + (r - 1) + 1) (p + 1 + 1) true
      else
        let ahead ← s8Span src p src.length
        let r ← escaped src ahead
        scanValue src (p + (r - 1) + 1) finish (cleanup || 0 < r)
    else scanValue src (p + 1) (if whitespace c then finish else p + 1) cleanup
  else return ⟨p, finish, cleanup⟩
termination_by src.length - p

/-- A value with excess characters is a copy without its escapes. -/
def ValueScan.value (src : S8) (beg : Nat) (scan : ValueScan) : Except Stop S8 := do
  let field ← s8Span src beg scan.finish
  if scan.cleanup then stripEscapes src field else field.read src

/-- The value of an unknown field is not looked at. -/
def storeValue (src : S8) (pkg : Pkg) (target : Target) (beg : Nat) (scan : ValueScan) :
    Except Stop Pkg :=
  match target with
  | .unknown => return pkg
  | target => do
      let value ← scan.value src beg
      return target.store pkg value

structure LineState where
  pkg : Pkg
  p : Nat

/-- What stands behind the separator of a line. -/
def scanEntry (src : S8) (pkg : Pkg) (target : Target) (p : Nat) : Except Stop LineState := do
  let beg ← skipLeading src p
  let value ← scanValue src beg beg false
  let pkg ← storeValue src pkg target beg value
  return ⟨pkg, value.p⟩

/-- A line ends with a new state or with the duplicate that ends the scan. -/
def scanLine (src : S8) (pkg : Pkg) (p : Nat) : Except Stop (LineState ⊕ ParseResult) := do
  let p ← skipSpace src p
  if ← commentSign src p src.length then
    let p ← skipComment src p
    return .inl ⟨pkg, p⟩
  else
    let scan ← scanName src p p 0
    let name ← s8Span src p scan.finish
    let name ← name.read src
    match openTarget pkg scan.c name with
    | .skip => return .inl ⟨pkg, scan.p⟩
    | .duplicate result => return .inr result
    | target => Sum.inl <$> scanEntry src pkg target scan.p

/-- The outer loop takes a line in each turn. -/
def parseBody (src : S8) (state : LineState) : LineState ⊕ Except Stop ParseResult :=
  if state.p < src.length then
    match scanLine src state.pkg state.p with
    | .error stop => .inr (.error stop)
    | .ok (.inl next) => .inl next
    | .ok (.inr result) => .inr (.ok result)
  else .inr (.ok (.ok state.pkg))

def parseStart (src : S8) : LineState := ⟨{ Pkg.zero with contents := some src }, 0⟩

end Checked

end UConfig
