/-
This file proves that a console shows the characters of everything that is printed on it.
-/

import UConfig.Program.Console
import UConfig.Proof.Wide.Conversion

namespace UConfig

open Transcode Unicode

/-- What a console is offered at once fits into the buffer and has no half of a surrogate pair. -/
def Payload (units : S16) : Prop :=
  units ≠ [] ∧ units.length ≤ consoleCap ∧ WellFormed utf16Units units

/-- The console has taken everything that it was offered. -/
def Taken (device : Device) (offered : List S16) : Prop :=
  ∀ i units, offered[i]? = some units → device.console i units = true

/-- The console has refused the last offer and only this one. -/
def Refused (device : Device) (offered : List S16) : Prop :=
  ∃ before units, offered = before ++ [units] ∧ Taken device before ∧
    device.console before.length units = false

/-- The units that have been printed are the offered ones and those in the buffer, and after an
error the buffer does not matter. -/
structure U16Buf.Shows (b : U16Buf) (device : Device) (total : S16) : Prop where
  room : b.buf.length ≤ consoleCap
  whole : WellFormed utf16Units b.buf
  payloads : ∀ units ∈ b.offered, Payload units
  fine : b.err = false → b.offered.flatten ++ b.buf = total ∧ Taken device b.offered
  failed : b.err = true → b.offered.flatten <+: total ∧ Refused device b.offered

/-- A console that takes one payload more has taken all of them. -/
theorem Taken.concat {device : Device} {offered : List S16} (taken : Taken device offered)
    {units : S16} (accepted : device.console offered.length units = true) :
    Taken device (offered ++ [units]) := by
  intro i other isAt
  rcases Nat.lt_trichotomy i offered.length with older | rfl | outside
  · exact taken i other (by rwa [List.getElem?_append_left older] at isAt)
  · rw [List.getElem?_concat_length] at isAt
    rwa [← Option.some.inj isAt]
  · have none : (offered ++ [units])[i]? = none := by
      rw [List.getElem?_eq_none_iff, List.length_append, List.length_singleton]
      omega
    rw [none] at isAt
    cases isAt

/-- The empty string is well formed. -/
theorem wellFormed_nil {Source : Type} (encode : Char → List Source) : WellFormed encode [] :=
  ⟨[], rfl⟩

/-- Well-formed strings are well formed together. -/
theorem WellFormed.append {Source : Type} {encode : Char → List Source} {first second : List Source}
    (formed : WellFormed encode first) (formed' : WellFormed encode second) :
    WellFormed encode (first ++ second) := by
  obtain ⟨chars, rfl⟩ := formed
  obtain ⟨chars', rfl⟩ := formed'
  exact ⟨chars ++ chars', List.flatMap_append.symm⟩

namespace U16Buf.Shows

variable {b : U16Buf} {device : Device} {total : S16}

/-- After an error a flush offers nothing. -/
theorem flushConsole_failed (failed : b.err = true) :
    flushConsole device b = { b with buf := [] } := by
  rw [flushConsole, failed]
  rfl

/-- A flush offers what is in the buffer and empties it. -/
theorem flushConsole_fine (fine : b.err = false) (filled : b.buf ≠ []) :
    flushConsole device b =
      ⟨[], !device.console b.offered.length b.buf, b.offered ++ [b.buf]⟩ := by
  have positive : (b.buf.length != 0) = true := by simpa using filled
  rw [flushConsole, fine, positive]
  rfl

/-- A flush always empties the buffer. -/
theorem flushConsole_buf : (flushConsole device b).buf = [] := by
  rw [flushConsole]
  split <;> rfl

/-- A flush offers the units in the buffer. -/
theorem flush (shows : b.Shows device total) : (flushConsole device b).Shows device total := by
  by_cases empty : b.buf = []
  · have same : flushConsole device b = b := by
      obtain ⟨buf, err, offered⟩ := b
      cases empty
      cases err <;> rfl
    rwa [same]
  cases error : b.err with
  | true =>
      obtain ⟨cut, refused⟩ := shows.failed error
      rw [flushConsole_failed error]
      refine ⟨Nat.zero_le _, wellFormed_nil _, shows.payloads, ?_, fun _ => ⟨cut, refused⟩⟩
      intro fine
      rw [error] at fine
      cases fine
  | false =>
      obtain ⟨complete, taken⟩ := shows.fine error
      have text : (b.offered ++ [b.buf]).flatten = total := by
        rw [List.flatten_append, List.flatten_singleton, complete]
      rw [flushConsole_fine error empty]
      refine ⟨Nat.zero_le _, wellFormed_nil _, ?_, ?_, ?_⟩
      · intro units member
        rcases List.mem_append.mp member with older | newest
        · exact shows.payloads units older
        · rw [List.mem_singleton.mp newest]
          exact ⟨empty, shows.room, shows.whole⟩
      · intro fine
        exact ⟨(List.append_nil _).trans text, taken.concat (by simpa using fine)⟩
      · intro failed
        have whole : (b.offered ++ [b.buf]).flatten <+: total := ⟨[], (List.append_nil _).trans text⟩
        exact ⟨whole, b.offered, b.buf, rfl, taken, by simpa using failed⟩

/-- A character that is printed is behind everything that has been printed. -/
theorem print (shows : b.Shows device total) (c : Char) :
    ∃ b', printC32 device b c.toNat = .ok b' ∧ b'.Shows device (total ++ utf16Units c) := by
  have short : (utf16Units c).length ≤ 2 := by
    rw [utf16Units]
    split <;> simp
  have room : ∃ b', (if b.buf.length > consoleCap - 2 then flushConsole device b else b) = b' ∧
      b'.buf.length + (utf16Units c).length ≤ consoleCap ∧ b'.Shows device total := by
    by_cases full : b.buf.length > consoleCap - 2
    · refine ⟨_, if_pos full, ?_, shows.flush⟩
      rw [flushConsole_buf, List.length_nil, consoleCap]
      omega
    · refine ⟨b, if_neg full, ?_, shows⟩
      rw [consoleCap] at full ⊢
      omega
  obtain ⟨b', flushed, fits, shows'⟩ := room
  refine ⟨{ b' with buf := b'.buf ++ utf16Units c }, ?_, ?_⟩
  · rw [printC32, flushed, utf16Encode_toNat, if_pos fits]
  · constructor
    · rwa [List.length_append]
    · exact shows'.whole.append ⟨[c], (List.flatMap_singleton ..).symm⟩
    · exact shows'.payloads
    · intro fine
      obtain ⟨complete, taken⟩ := shows'.fine fine
      refine ⟨?_, taken⟩
      change b'.offered.flatten ++ (b'.buf ++ utf16Units c) = total ++ utf16Units c
      rw [← List.append_assoc, complete]
    · intro failed
      obtain ⟨cut, refused⟩ := shows'.failed failed
      exact ⟨cut.trans (List.prefix_append _ _), refused⟩

/-- The runes of a string are printed one by one. -/
theorem printRunes_next {s : S8} (nonempty : s ≠ []) :
    printRunes device b s = printC32 device b (utf8Decoder.next s).1 >>= fun b =>
      printRunes device b (utf8Decoder.next s).2 := by
  rw [printRunes, if_neg nonempty]
  rfl

/-- The characters of a string are printed as the units of the whole string. -/
theorem run {s : S8} {chars : List Char}
    (reads : Reads String.utf8EncodeChar replacementChar s chars) (shows : b.Shows device total) :
    ∃ b', printRunes device b s = .ok b' ∧
      b'.Shows device (total ++ chars.flatMap utf16Units) := by
  induction reads generalizing b total with
  | nil =>
      refine ⟨b, by rw [printRunes, if_pos rfl], ?_⟩
      rwa [List.flatMap_nil, List.append_nil]
  | @symbol c s chars _ ih =>
      have nonempty : String.utf8EncodeChar c ++ s ≠ [] :=
        List.append_ne_nil_of_left_ne_nil String.utf8EncodeChar_ne_nil s
      have decoded : utf8Decoder.next (String.utf8EncodeChar c ++ s) = (c.toNat, s) :=
        utf8Codec.next_encode c s
      obtain ⟨b', printed, shows'⟩ := shows.print c
      obtain ⟨b'', run, shows''⟩ := ih shows'
      refine ⟨b'', ?_, by rwa [List.flatMap_cons, ← List.append_assoc]⟩
      rw [printRunes_next nonempty, decoded, printed]
      exact run
  | @stray unit s chars none _ ih =>
      have decoded : utf8Decoder.next (unit :: s) = (replacementChar.toNat, s) :=
        utf8Codec.next_stray unit s none
      obtain ⟨b', printed, shows'⟩ := shows.print replacementChar
      obtain ⟨b'', run, shows''⟩ := ih shows'
      refine ⟨b'', ?_, by rwa [List.flatMap_cons, ← List.append_assoc]⟩
      rw [printRunes_next (List.cons_ne_nil unit s), decoded, printed]
      exact run

end U16Buf.Shows

/-- The console has shown this text, or it has refused something and shows a part of it. -/
structure Handle.Shows (handle : Handle) (device : Device) (total : S16) : Prop where
  isConsole : handle.isConsole = true
  payloads : ∀ units ∈ handle.units, Payload units
  fine : handle.err = false → handle.units.flatten = total ∧ Taken device handle.units
  failed : handle.err = true → handle.units.flatten <+: total ∧ Refused device handle.units

/-- A new console shows nothing. -/
theorem shows_newHandle (device : Device) : (newHandle true).Shows device [] where
  isConsole := rfl
  payloads units member := by cases member
  fine _ := by
    refine ⟨rfl, ?_⟩
    intro i units isAt
    cases isAt
  failed error := by cases error

/-- A write shows the characters of its string behind the text that is already there. -/
theorem Handle.Shows.write {handle : Handle} {device : Device} {total : S16}
    (shows : handle.Shows device total) {s : S8} {chars : List Char}
    (reads : Reads String.utf8EncodeChar replacementChar s chars) :
    ∃ handle', osWrite device handle s = .ok handle' ∧
      handle'.Shows device (total ++ chars.flatMap utf16Units) := by
  cases error : handle.err with
  | true =>
      obtain ⟨cut, refused⟩ := shows.failed error
      refine ⟨handle, by rw [osWrite, error]; rfl, shows.isConsole, shows.payloads, ?_, ?_⟩
      · intro fine
        rw [error] at fine
        cases fine
      · exact fun _ => ⟨cut.trans (List.prefix_append _ _), refused⟩
  | false =>
      obtain ⟨complete, taken⟩ := shows.fine error
      have start : U16Buf.Shows ⟨[], false, handle.units⟩ device total := by
        refine ⟨Nat.zero_le _, wellFormed_nil _, shows.payloads, ?_, ?_⟩
        · exact fun _ => ⟨(List.append_nil _).trans complete, taken⟩
        · intro failed
          cases failed
      obtain ⟨b, printed, shows'⟩ := start.run reads
      have flushed := shows'.flush
      refine ⟨{ handle with
        err := (flushConsole device b).err, units := (flushConsole device b).offered }, ?_,
        shows.isConsole, flushed.payloads, ?_, flushed.failed⟩
      · rw [osWrite, error, shows.isConsole, if_neg Bool.false_ne_true, if_pos rfl, printed]
        rfl
      · intro fine
        obtain ⟨text, taken'⟩ := flushed.fine fine
        rw [U16Buf.Shows.flushConsole_buf, List.append_nil] at text
        exact ⟨text, taken'⟩

/-- Writes one after the other show all their characters. -/
theorem Handle.Shows.writes {handle : Handle} {device : Device} {total : S16}
    (shows : handle.Shows device total) (payloads : List S8) :
    ∃ handle' wides, payloads.foldlM (osWrite device) handle = .ok handle' ∧
      List.Forall₂ WritesWide payloads wides ∧
      handle'.Shows device (total ++ wides.flatten) := by
  induction payloads generalizing handle total with
  | nil => exact ⟨handle, [], rfl, .nil, by simpa using shows⟩
  | cons s payloads ih =>
      obtain ⟨chars, reads⟩ := utf8Codec.exists_reads s
      obtain ⟨next, written, shows'⟩ := shows.write reads
      obtain ⟨handle', wides, run, converted, shows''⟩ := ih shows'
      refine ⟨handle', chars.flatMap utf16Units :: wides, ?_,
        .cons (writesWide_of_reads reads) converted, ?_⟩
      · rw [List.foldlM_cons, written]
        exact run
      · rwa [List.flatten_cons, ← List.append_assoc]

/-- Whole characters convert one string after the other as they do at once. -/
theorem writesWide_flatten {payloads : List S8} {wides : List S16}
    (converted : List.Forall₂ WritesWide payloads wides)
    (formed : ∀ s ∈ payloads, WellFormed String.utf8EncodeChar s) :
    WritesWide payloads.flatten wides.flatten := by
  have whole : ∃ chars : List Char, payloads.flatten = chars.flatMap String.utf8EncodeChar ∧
      wides.flatten = chars.flatMap utf16Units := by
    induction converted with
    | nil => exact ⟨[], rfl, rfl⟩
    | @cons s wide payloads wides isWide _ ih =>
        rw [List.forall_mem_cons] at formed
        obtain ⟨⟨chars, rfl⟩, rest⟩ := formed
        obtain ⟨more, text, units⟩ := ih rest
        have own := (writesWide_of_reads
          (reads_flatMap String.utf8EncodeChar replacementChar chars)).1
        rw [isWide.1] at own
        have same := congrArg Filled.buffer (Option.some.inj own)
        dsimp only at same
        refine ⟨chars ++ more, ?_, ?_⟩
        · rw [List.flatten_cons, text, List.flatMap_append]
        · rw [List.flatten_cons, units, same, List.flatMap_append]
  obtain ⟨chars, text, units⟩ := whole
  rw [text, units]
  exact writesWide_of_reads (reads_flatMap _ _ chars)

/-- Every sequence of writes to a console ends without a write outside of the buffer, and it offers
whole characters to the console. A console that refuses nothing shows the conversion of each
string in turn, and one that refuses something shows a part of it and is offered nothing more. When
each string is well formed, the strings are converted as one text. -/
theorem osWrite_console (device : Device) (payloads : List S8) :
    ∃ handle wides, payloads.foldlM (osWrite device) (newHandle true) = .ok handle ∧
      List.Forall₂ WritesWide payloads wides ∧ (∀ units ∈ handle.units, Payload units) ∧
      (handle.err = false → handle.units.flatten = wides.flatten ∧ Taken device handle.units) ∧
      (handle.err = true → handle.units.flatten <+: wides.flatten ∧
        Refused device handle.units) ∧
      ((∀ s ∈ payloads, WellFormed String.utf8EncodeChar s) →
        WritesWide payloads.flatten wides.flatten) := by
  obtain ⟨handle, wides, run, converted, shows⟩ := (shows_newHandle device).writes payloads
  exact ⟨handle, wides, run, converted, shows.payloads, shows.fine, shows.failed,
    writesWide_flatten converted⟩

end UConfig
