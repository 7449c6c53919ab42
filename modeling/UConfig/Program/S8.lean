/-
This file gives the byte strings of the program and the functions that cut them.
A string with a null pointer is `none`, and a string of length zero is `some []`.
-/

import Mathlib.Data.List.DropRight

namespace UConfig

abbrev S8 := List UInt8

/-- The bytes of a string literal. -/
def S (text : String) : S8 := text.toList.map Char.toUInt8

def digit (c : UInt8) : Bool := '0'.toUInt8 ≤ c && c ≤ '9'.toUInt8

def whitespace (c : UInt8) : Bool :=
  c == '\t'.toUInt8 || c == '\n'.toUInt8 || c == '\r'.toUInt8 || c == ' '.toUInt8

def pathsep (c : UInt8) : Bool := c == '/'.toUInt8 || c == '\\'.toUInt8

def startsWith (s head : S8) : Bool := head.isPrefixOf s

/-- The hash is the 32-bit FNV-1a hash. -/
def s8Hash (s : S8) : UInt32 :=
  s.foldl (fun h c => (h ^^^ c.toUInt32) * 0x01000193) 0x811c9dc5

structure S8Pair where
  head : S8
  tail : S8

def digits (s : S8) : S8Pair := ⟨s.takeWhile digit, s.dropWhile digit⟩

/-- The cut is only ok when the delimiter has been found. -/
structure Cut where
  head : S8
  tail : S8
  ok : Bool

def s8Cut (s : S8) (delim : UInt8) : Cut :=
  ⟨s.takeWhile (· != delim), (s.dropWhile (· != delim)).drop 1, s.contains delim⟩

def tokenSpace (c : UInt8) : Bool := whitespace c || c == ','.toUInt8

def skipTokenSpace (s : S8) : S8 := s.dropWhile tokenSpace

def nextToken (s : S8) : S8Pair :=
  let s := skipTokenSpace s
  ⟨s.takeWhile (!tokenSpace ·), s.dropWhile (!tokenSpace ·)⟩

/-- The path without its last component. -/
def dirname (path : S8) : S8 := (path.rdropWhile (!pathsep ·)).dropLast

/-- The last component of the path. -/
def basename (path : S8) : S8 := path.rtakeWhile (!pathsep ·)

/-- The path of a package file in a directory ends with a null terminator. -/
def buildPath (dir pc : S8) : S8 := dir ++ S "/" ++ pc ++ S ".pc" ++ [0]

def realnameIsPath (realname : S8) : Bool :=
  3 < realname.length && realname.drop (realname.length - 3) == S ".pc"

def pathToRealname (path : S8) : S8 :=
  if realnameIsPath path then (basename path).take ((basename path).length - 3) else path

/-- A property of all bytes holds when it holds of the first 256 numbers. -/
theorem forall_byte {Property : UInt8 → Prop}
    (checked : ∀ n < 256, Property (UInt8.ofNat n)) (c : UInt8) : Property c := by
  have value := checked c.toNat c.toNat_lt
  rwa [UInt8.ofNat_toNat] at value

/-- What stops a cut is no byte that it drops. -/
theorem stops_of_dropWhile {drops : UInt8 → Bool} {s rest : S8} {c : UInt8}
    (found : s.dropWhile drops = c :: rest) : drops c = false := by
  have stops := List.head?_dropWhile_not drops s
  rw [found] at stops
  exact stops

/-- The directory of a path is what stands before the last separator. -/
theorem dirname_append (dir name : S8) {sep : UInt8} (isSep : pathsep sep = true)
    (plain : ∀ c ∈ name, pathsep c = false) : dirname (dir ++ sep :: name) = dir := by
  have cut : (dir ++ sep :: name).rdropWhile (!pathsep ·) = dir ++ [sep] := by
    induction name using List.reverseRecOn with
    | nil =>
        rw [List.rdropWhile_concat_neg]
        simp [isSep]
    | append_singleton name c ih =>
        rw [show dir ++ sep :: (name ++ [c]) = (dir ++ sep :: name) ++ [c] by simp,
          List.rdropWhile_concat_pos _ _ _ (by simp [plain c (by simp)])]
        exact ih fun other member => plain other (List.mem_append_left _ member)
  rw [dirname, cut, List.dropLast_concat]

/-- The last component of a path is what stands after the last separator. -/
theorem basename_append (dir name : S8) {sep : UInt8} (isSep : pathsep sep = true)
    (plain : ∀ c ∈ name, pathsep c = false) : basename (dir ++ sep :: name) = name := by
  rw [basename]
  induction name using List.reverseRecOn with
  | nil =>
      rw [List.rtakeWhile_concat_neg]
      simp [isSep]
  | append_singleton name c ih =>
      rw [show dir ++ sep :: (name ++ [c]) = (dir ++ sep :: name) ++ [c] by simp,
        List.rtakeWhile_concat_pos _ _ _ (by simp [plain c (by simp)]),
        ih fun other member => plain other (List.mem_append_left _ member)]

end UConfig
