/-
This file gives codes of symbols in units, and the conversion of one code into another that counts
the units in a first pass and writes them in a second one.
-/

import Mathlib.Data.List.Flatten

namespace Transcode

variable {Symbol Rune Source Target : Type*}

/-- A decoder takes the next rune off a string of units, and never takes off nothing. -/
structure Decoder (Rune Source : Type*) where
  next : List Source → Rune × List Source
  shorter : ∀ s ≠ [], (next s).2.length < s.length

/-- A buffer of which the first units have been written. -/
structure Filled (Target : Type*) where
  buffer : List Target
  len : Nat

/-- The units are written at the end of the written ones, and there must be room for them. -/
def Filled.append (w : Filled Target) (units : List Target) : Option (Filled Target) :=
  if w.len + units.length ≤ w.buffer.length then
    some ⟨w.buffer.take w.len ++ units ++ w.buffer.drop (w.len + units.length), w.len + units.length⟩
  else none

namespace Decoder

/-- The runes of a string of units. -/
def runes (decoder : Decoder Rune Source) (s : List Source) : List Rune :=
  if s = [] then [] else (decoder.next s).1 :: decoder.runes (decoder.next s).2
termination_by s.length
decreasing_by exact decoder.shorter s ‹_›

/-- The first pass adds up the lengths of the encoded runes. -/
def count (decoder : Decoder Rune Source) (encode : Rune → List Target) (len : Nat)
    (s : List Source) : Nat :=
  if s = [] then len
  else decoder.count encode (len + (encode (decoder.next s).1).length) (decoder.next s).2
termination_by s.length
decreasing_by exact decoder.shorter s ‹_›

/-- The second pass writes the encoded runes. -/
def fill (decoder : Decoder Rune Source) (encode : Rune → List Target) (w : Filled Target)
    (s : List Source) : Option (Filled Target) :=
  if s = [] then some w
  else
    match w.append (encode (decoder.next s).1) with
    | none => none
    | some w => decoder.fill encode w (decoder.next s).2
termination_by s.length
decreasing_by exact decoder.shorter s ‹_›

/-- The buffer of the second pass has the length that the first pass has counted. -/
def convert (decoder : Decoder Rune Source) (encode : Rune → List Target) (zero : Target)
    (s : List Source) : Option (Filled Target) :=
  decoder.fill encode ⟨List.replicate (decoder.count encode 0 s) zero, 0⟩ s

/-- An empty source has no runes. -/
@[simp] theorem runes_nil (decoder : Decoder Rune Source) : decoder.runes [] = [] := by
  rw [runes, if_pos rfl]

/-- The runes of a source are its first one and those of the rest. -/
theorem runes_of_ne_nil (decoder : Decoder Rune Source) {s : List Source} (nonempty : s ≠ []) :
    decoder.runes s = (decoder.next s).1 :: decoder.runes (decoder.next s).2 := by
  rw [runes, if_neg nonempty]

/-- The first pass counts the units that the second pass writes. -/
theorem count_eq (decoder : Decoder Rune Source) (encode : Rune → List Target) (len : Nat)
    (s : List Source) :
    decoder.count encode len s = len + ((decoder.runes s).flatMap encode).length := by
  fun_induction count decoder encode len s with
  | case1 len => simp
  | case2 len s nonempty ih =>
      rw [ih, decoder.runes_of_ne_nil nonempty, List.flatMap_cons, List.length_append, Nat.add_assoc]

/-- Units that fit move the boundary between the written units and the free ones. -/
theorem append_eq (written free units more : List Target)
    (room : free.length = (units ++ more).length) :
    ∃ left : List Target, left.length = more.length ∧
      Filled.append ⟨written ++ free, written.length⟩ units =
        some ⟨written ++ units ++ left, (written ++ units).length⟩ := by
  refine ⟨free.drop units.length, ?_, ?_⟩
  · rw [List.length_drop, room, List.length_append]
    omega
  · have fits : written.length + units.length ≤ (written ++ free).length := by
      rw [List.length_append, room, List.length_append]
      omega
    rw [Filled.append, if_pos fits, List.take_left, ← List.drop_drop, List.drop_left,
      List.length_append]

/-- The second pass fills free room of the right length. -/
theorem fill_eq (decoder : Decoder Rune Source) (encode : Rune → List Target) (s : List Source)
    (written free : List Target)
    (room : free.length = ((decoder.runes s).flatMap encode).length) :
    decoder.fill encode ⟨written ++ free, written.length⟩ s =
      some ⟨written ++ (decoder.runes s).flatMap encode,
        (written ++ (decoder.runes s).flatMap encode).length⟩ := by
  induction s using Decoder.runes.induct decoder generalizing written free with
  | case1 =>
      have full : free = [] := by
        rw [runes_nil] at room
        exact List.eq_nil_of_length_eq_zero room
      rw [fill, if_pos rfl, runes_nil, full, List.flatMap_nil, List.append_nil]
  | case2 s nonempty ih =>
      rw [decoder.runes_of_ne_nil nonempty, List.flatMap_cons] at room ⊢
      obtain ⟨left, length, appended⟩ := append_eq written free _ _ room
      rw [fill, if_neg nonempty, appended]
      dsimp only
      rw [ih _ left length, List.append_assoc]

/-- The conversion encodes all runes and fills its buffer. -/
theorem convert_eq (decoder : Decoder Rune Source) (encode : Rune → List Target) (zero : Target)
    (s : List Source) :
    decoder.convert encode zero s = some ⟨(decoder.runes s).flatMap encode,
      ((decoder.runes s).flatMap encode).length⟩ := by
  have room : (List.replicate (decoder.count encode 0 s) zero).length =
      ((decoder.runes s).flatMap encode).length := by
    rw [List.length_replicate, count_eq, Nat.zero_add]
  exact fill_eq decoder encode s [] _ room

end Decoder

/-- The units of a string read as symbols, where a unit at which no symbol starts reads as the
replacement. -/
inductive Reads (encode : Symbol → List Source) (replacement : Symbol) :
    List Source → List Symbol → Prop
  | nil : Reads encode replacement [] []
  | symbol (symbol : Symbol) {s : List Source} {symbols : List Symbol}
      (rest : Reads encode replacement s symbols) :
      Reads encode replacement (encode symbol ++ s) (symbol :: symbols)
  | stray {unit : Source} {s : List Source} {symbols : List Symbol}
      (none : ∀ symbol, ¬ encode symbol <+: unit :: s)
      (rest : Reads encode replacement s symbols) :
      Reads encode replacement (unit :: s) (replacement :: symbols)

/-- Encoded symbols read as themselves. -/
theorem reads_flatMap (encode : Symbol → List Source) (replacement : Symbol)
    (symbols : List Symbol) : Reads encode replacement (symbols.flatMap encode) symbols := by
  induction symbols with
  | nil => exact .nil
  | cons symbol symbols ih => exact .symbol symbol ih

/-- A decoder for encoded symbols that passes over one unit when no symbol starts there. -/
structure Codec (Symbol Rune Source : Type*) extends Decoder Rune Source where
  encode : Symbol → List Source
  code : Symbol → Rune
  replacement : Symbol
  encode_ne_nil : ∀ symbol, encode symbol ≠ []
  next_encode : ∀ symbol rest, next (encode symbol ++ rest) = (code symbol, rest)
  next_stray : ∀ unit rest, (∀ symbol, ¬ encode symbol <+: unit :: rest) →
    next (unit :: rest) = (code replacement, rest)

namespace Codec

/-- Every string can be read. -/
theorem exists_reads (codec : Codec Symbol Rune Source) (s : List Source) :
    ∃ symbols, Reads codec.encode codec.replacement s symbols := by
  induction length : s.length using Nat.strongRecOn generalizing s with
  | ind length ih =>
      subst length
      cases s with
      | nil => exact ⟨[], .nil⟩
      | cons unit rest =>
          by_cases starts : ∃ symbol, codec.encode symbol <+: unit :: rest
          · obtain ⟨symbol, below, same⟩ := starts
            have positive := List.length_pos_iff.mpr (codec.encode_ne_nil symbol)
            have shorter : below.length < (unit :: rest).length := by
              rw [← same, List.length_append]
              omega
            obtain ⟨symbols, reads⟩ := ih _ shorter below rfl
            exact ⟨symbol :: symbols, same ▸ .symbol symbol reads⟩
          · obtain ⟨symbols, reads⟩ := ih _ (Nat.lt_succ_self rest.length) rest rfl
            exact ⟨_, .stray (not_exists.mp starts) reads⟩

/-- The decoder finds the codes of the symbols that a string reads as. -/
theorem runes_of_reads (codec : Codec Symbol Rune Source) {s : List Source}
    {symbols : List Symbol} (reads : Reads codec.encode codec.replacement s symbols) :
    codec.runes s = symbols.map codec.code := by
  induction reads with
  | nil => rw [Decoder.runes_nil, List.map_nil]
  | @symbol symbol s symbols rest ih =>
      have nonempty : codec.encode symbol ++ s ≠ [] :=
        List.append_ne_nil_of_left_ne_nil (codec.encode_ne_nil symbol) s
      rw [Decoder.runes_of_ne_nil _ nonempty, codec.next_encode, ih, List.map_cons]
  | @stray unit s symbols none rest ih =>
      rw [Decoder.runes_of_ne_nil _ (List.cons_ne_nil unit s), codec.next_stray unit s none, ih,
        List.map_cons]

/-- A string reads in one way only. -/
theorem reads_unique (codec : Codec Symbol Rune Source)
    (injective : Function.Injective codec.code) {s : List Source} {symbols symbols' : List Symbol}
    (reads : Reads codec.encode codec.replacement s symbols)
    (reads' : Reads codec.encode codec.replacement s symbols') : symbols = symbols' := by
  apply (List.map_inj_right fun _ _ same => injective same).mp
  rw [← codec.runes_of_reads reads, codec.runes_of_reads reads']

/-- A conversion writes the symbols that its input reads as. -/
theorem convert_of_reads (codec : Codec Symbol Rune Source) {write : Rune → List Target}
    {encode : Symbol → List Target} (writes : ∀ symbol, write (codec.code symbol) = encode symbol)
    (zero : Target) {s : List Source} {symbols : List Symbol}
    (reads : Reads codec.encode codec.replacement s symbols) :
    codec.convert write zero s =
      some ⟨symbols.flatMap encode, (symbols.flatMap encode).length⟩ := by
  have written : (codec.runes s).flatMap write = symbols.flatMap encode := by
    rw [codec.runes_of_reads reads, List.flatMap_map]
    simp only [writes]
  rw [Decoder.convert_eq, written]

end Codec

end Transcode
