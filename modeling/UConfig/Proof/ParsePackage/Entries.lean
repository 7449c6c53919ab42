/-
This file gives the entries that a package file is printed from and the layout of the file.
-/

import UConfig.Program.ParsePackage

namespace UConfig

/-- The text neither starts nor ends with whitespace. -/
structure Trimmed (text : S8) : Prop where
  start : ∀ c, text.head? = some c → whitespace c = false
  stop : ∀ c, text.getLast? = some c → whitespace c = false

structure EntryName where
  text : S8
  nonempty : text ≠ []
  noEquals : '='.toUInt8 ∉ text
  noColon : ':'.toUInt8 ∉ text
  noNewline : '\n'.toUInt8 ∉ text
  noComment : text.head? ≠ some '#'.toUInt8
  trimmed : Trimmed text

structure EntryValue where
  text : S8
  noNewline : '\n'.toUInt8 ∉ text
  noComment : '#'.toUInt8 ∉ text
  trimmed : Trimmed text
  noBackslash : text.getLast? ≠ some '\\'.toUInt8

/-- The label of every known field can be printed. -/
def Field.entryName (field : Field) : EntryName where
  text := field.label
  nonempty := by cases field <;> decide
  noEquals := by cases field <;> decide
  noColon := by cases field <;> decide
  noNewline := by cases field <;> decide
  noComment := by cases field <;> decide
  trimmed := by
    constructor <;> intro c found <;> cases field <;> cases found <;> decide

inductive Entry where
  | binding (name : EntryName) (value : EntryValue)
  | field (field : Field) (value : EntryValue)
  | unknown (key : EntryName) (absent : fieldByName key.text = none) (value : EntryValue)

namespace Entry

/-- Variables and known fields must not be repeated. -/
inductive Key where
  | binding (name : S8)
  | field (field : Field)
  deriving DecidableEq

def key : Entry → Option Key
  | binding name _ => some (.binding name.text)
  | field known _ => some (.field known)
  | unknown _ _ _ => none

def name : Entry → EntryName
  | binding name _ => name
  | field known _ => known.entryName
  | unknown key _ _ => key

def value : Entry → EntryValue
  | binding _ value => value
  | field _ value => value
  | unknown _ _ value => value

def separator : Entry → UInt8
  | binding _ _ => '='.toUInt8
  | _ => ':'.toUInt8

/-- A variable stands right before its value, and a field has a space there. -/
def space : Entry → S8
  | binding _ _ => []
  | _ => S " "

def line (entry : Entry) : S8 :=
  entry.name.text ++ entry.separator :: entry.space ++ entry.value.text

/-- What the scanner returns when the entry repeats an earlier one. -/
def duplicate : Entry → ParseResult
  | binding name _ => .dupVariable name.text
  | field known _ => .dupField known.label
  | unknown key _ _ => .dupField key.text

end Entry

/-- What the package holds under a key, where a variable may be bound to a null string. -/
def Entry.Key.stored (pkg : Pkg) : Entry.Key → Option (Option S8)
  | binding name => pkg.env.find name
  | field known => (pkg.field known).map some

/-- What the scanner does with the value of a new key. -/
def Entry.Key.target : Entry.Key → Target
  | binding name => .binding name
  | field known => .field known

/-- The package holds the values of the entries under their keys and nothing else. -/
def Bound (entries : List Entry) (pkg : Pkg) : Prop :=
  ∀ key value, key.stored pkg = some value ↔
    ∃ entry ∈ entries, entry.key = some key ∧ value = some entry.value.text

inductive LineEnd where
  | lf
  | crlf

def LineEnd.bytes : LineEnd → S8
  | lf => S "\n"
  | crlf => S "\r\n"

/-- Both ends of a line are blank. -/
theorem LineEnd.whitespace (ending : LineEnd) :
    ∀ c ∈ ending.bytes, UConfig.whitespace c = true := by
  cases ending <;> decide +kernel

/-- A line without an entry is blank or a comment. -/
inductive Filler where
  | blank (spaces : S8) (isBlank : ∀ c ∈ spaces, whitespace c = true) (ending : LineEnd)
  | comment (text : S8) (oneLine : '\n'.toUInt8 ∉ text) (ending : LineEnd)

def Filler.print : Filler → S8
  | blank spaces _ ending => spaces ++ ending.bytes
  | comment text _ ending => '#'.toUInt8 :: text ++ ending.bytes

/-- An entry is printed behind any number of lines without one. -/
structure PrintedEntry where
  fillers : List Filler
  entry : Entry
  ending : LineEnd

def PrintedEntry.print (printed : PrintedEntry) : S8 :=
  printed.fillers.flatMap Filler.print ++ printed.entry.line ++ printed.ending.bytes

structure Layout where
  printed : List PrintedEntry
  trailing : List Filler

namespace Layout

def entries (layout : Layout) : List Entry := layout.printed.map (·.entry)

def print (layout : Layout) : S8 :=
  layout.printed.flatMap PrintedEntry.print ++ layout.trailing.flatMap Filler.print

end Layout

/-- The names and the known fields of the entries, in order. -/
def keys (entries : List Entry) : List Entry.Key := entries.filterMap Entry.key

end UConfig
