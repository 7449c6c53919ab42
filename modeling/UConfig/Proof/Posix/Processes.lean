/-
This file proves what a process delivers, and that it depends neither on the sizes of the reads nor
on those of the writes.
-/

import UConfig.Proof.Posix.Transfers
import UConfig.Proof.Main.Contract

namespace UConfig

open Loop (Grows)

/-- What a process leaves when all its bytes arrive. -/
def Exit.ended (exit : Exit) : Ended := ⟨exit.success, bytesOf exit.writes⟩

/-- The bytes that are for one descriptor. -/
def received (fd : Descriptor) (bytes : List (Descriptor × UInt8)) : S8 :=
  (bytes.filter (·.1 = fd)).map (·.2)

/-- What comes later is received later. -/
theorem received_append (fd : Descriptor) (first second : List (Descriptor × UInt8)) :
    received fd (first ++ second) = received fd first ++ received fd second := by
  simp [received]

/-- Bytes for one descriptor are received there and nowhere else. -/
theorem received_map (fd other : Descriptor) (s : S8) :
    received fd (s.map (other, ·)) = if other = fd then s else [] := by
  by_cases same : other = fd <;> simp [received, List.filter_map, Function.comp_def, same]

/-- A part of the bytes that is missing is missing at the end of both descriptors. -/
theorem received_isPrefix (fd : Descriptor) {part bytes : List (Descriptor × UInt8)}
    (isPart : part <+: bytes) : received fd part <+: received fd bytes :=
  (isPart.filter _).map _

/-- The bytes of payloads are those of their text. -/
theorem bytesOf_map (fd : Descriptor) (payloads : List S8) :
    bytesOf (payloads.map (fd, ·)) = payloads.flatten.map (fd, ·) := by
  simp [bytesOf, List.flatMap_def, List.map_flatten, Function.comp_def]

namespace Exit

variable (exit : Exit)

/-- All bytes of the output come before those of the message. -/
theorem ended_bytes : exit.ended.bytes =
    exit.stdout.flatten.map (Descriptor.stdout, ·) ++
      exit.stderr.flatten.map (Descriptor.stderr, ·) := by
  rw [← bytesOf_map, ← bytesOf_map, bytesOf, bytesOf, ← List.flatMap_append]
  rfl

/-- The output receives its text. -/
theorem received_stdout : received .stdout exit.ended.bytes = exit.stdout.flatten := by
  rw [ended_bytes, received_append, received_map, received_map, if_pos rfl, if_neg (by decide),
    List.append_nil]

/-- The message receives its own. -/
theorem received_stderr : received .stderr exit.ended.bytes = exit.stderr.flatten := by
  rw [ended_bytes, received_append, received_map, received_map, if_neg (by decide), if_pos rfl,
    List.nil_append]

/-- Messages follow the whole output. -/
theorem stdout_of_stderr {part : List (Descriptor × UInt8)} (isPart : part <+: exit.ended.bytes)
    (message : received .stderr part ≠ []) : received .stdout part = exit.stdout.flatten := by
  obtain ⟨rest, split⟩ := isPart
  rw [ended_bytes, List.append_eq_append_iff] at split
  rcases split with ⟨missing, output, _⟩ | ⟨shown, output, messages⟩
  · have none := congrArg (received .stderr) output
    rw [received_append, received_map, if_neg (by decide)] at none
    exact absurd (List.append_eq_nil_iff.mp none.symm).1 message
  · have none := congrArg (received .stdout) messages
    rw [received_append, received_map, if_neg (by decide)] at none
    rw [output, received_append, received_map, if_pos rfl,
      (List.append_eq_nil_iff.mp none.symm).1, List.append_nil]

end Exit

/-- The process leaves this result when it is given enough turns. -/
def Leads (kernel : Kernel) (platform : Platform) (conf : Config) (result : Except Stop Ended) :
    Prop :=
  ∃ fuel, runProcess fuel kernel platform conf = some result

/-- More fuel does not change a delivery. -/
theorem grows_deliver (kernel : Kernel) (exit : Exit) :
    Grows fun fuel => exit.deliver fuel kernel := by
  refine (grows_posixWrites kernel exit.writes ⟨0, []⟩).bind fun written => ?_
  cases written <;> exact Loop.grows_const _

/-- A kernel that takes everything delivers the whole exit. -/
theorem deliver_takes {kernel : Kernel} (takes : kernel.Takes) (exit : Exit) :
    ∃ fuel, exit.deliver fuel kernel = some exit.ended := by
  obtain ⟨fuel, d, written⟩ := writes_takes takes exit.writes ⟨0, []⟩
  refine ⟨fuel, Option.bind_eq_some_iff.mpr ⟨_, written, ?_⟩⟩
  cases writes_outcome written with
  | whole text => exact congrArg (fun bytes => some (Ended.mk exit.success bytes)) text

/-- More fuel does not change the end of a process. -/
theorem grows_deliverOutcome (kernel : Kernel) (outcome : Except Stop Exit) :
    Grows fun fuel => deliverOutcome fuel kernel outcome := by
  cases outcome with
  | error stop => exact Loop.grows_const _
  | ok exit => exact (grows_deliver kernel exit).bind fun _ => Loop.grows_const _

section Leads

variable {kernel : Kernel} {platform : Platform} {conf : Config}

/-- A process first finishes its main function and then delivers the exit. -/
theorem leads_iff {result : Except Stop Ended} : Leads kernel platform conf result ↔
    ∃ outcome, Finishes platform conf outcome ∧
      ∃ fuel, deliverOutcome fuel kernel outcome = some result :=
  (grows_uconfig platform conf).exists_bind (grows_deliverOutcome kernel) result

/-- A process that ends has delivered its exit. -/
theorem leads_ok {ended : Ended} : Leads kernel platform conf (.ok ended) ↔
    ∃ exit, Finishes platform conf (.ok exit) ∧ ∃ fuel, exit.deliver fuel kernel = some ended := by
  rw [leads_iff]
  constructor
  · rintro ⟨outcome, finishes, fuel, returned⟩
    cases outcome with
    | error stop => cases returned
    | ok exit =>
        obtain ⟨ended', delivered, same⟩ := Option.bind_eq_some_iff.mp returned
        cases same
        exact ⟨exit, finishes, fuel, delivered⟩
  · rintro ⟨exit, finishes, fuel, delivered⟩
    exact ⟨.ok exit, finishes, fuel, Option.bind_eq_some_iff.mpr ⟨ended, delivered, rfl⟩⟩

/-- A process stops when its main function does. -/
theorem leads_error {stop : Stop} : Leads kernel platform conf (.error stop) ↔
    Finishes platform conf (.error stop) := by
  rw [leads_iff]
  constructor
  · rintro ⟨outcome, finishes, fuel, returned⟩
    cases outcome with
    | error stop' =>
        cases returned
        exact finishes
    | ok exit =>
        obtain ⟨ended', _, same⟩ := Option.bind_eq_some_iff.mp returned
        cases same
  · exact fun finishes => ⟨.error stop, finishes, 0, rfl⟩

/-- With a kernel that takes what is written a process leaves what the main function does. -/
theorem leads_takes (takes : kernel.Takes) {result : Except Stop Ended} :
    Leads kernel platform conf result ↔
      ∃ outcome, Finishes platform conf outcome ∧ result = outcome.map Exit.ended := by
  cases result with
  | error stop =>
      rw [leads_error]
      constructor
      · exact fun finishes => ⟨.error stop, finishes, rfl⟩
      · rintro ⟨outcome, finishes, same⟩
        cases outcome with
        | ok exit => cases same
        | error stop' =>
            cases same
            exact finishes
  | ok ended =>
      rw [leads_ok]
      constructor
      · rintro ⟨exit, finishes, fuel, delivered⟩
        obtain ⟨other, whole⟩ := deliver_takes takes exit
        have same := (grows_deliver kernel exit).unique delivered whole
        exact ⟨.ok exit, finishes, congrArg _ same⟩
      · rintro ⟨outcome, finishes, same⟩
        cases outcome with
        | error stop => cases same
        | ok exit =>
            cases same
            exact ⟨exit, finishes, deliver_takes takes exit⟩

end Leads

/-- The status of a process is zero exactly when its main function succeeds and all bytes have
been written. -/
structure Ended.Delivers (ended : Ended) (exit : Exit) (kernel : Kernel) : Prop where
  part : ended.bytes <+: exit.ended.bytes
  status : ended.success = true ↔ exit.success = true ∧ ended.bytes = exit.ended.bytes
  refused : ended.bytes ≠ exit.ended.bytes → ∃ fuel d missing,
    posixWrites fuel kernel exit.writes ⟨0, []⟩ = some (.error d) ∧ ended.bytes = d.bytes ∧
      d.bytes ++ missing = exit.ended.bytes ∧ kernel.Refuses d missing

/-- Every delivery is a first part, up to a write that has failed. -/
theorem deliver_delivers {kernel : Kernel} {exit : Exit} {fuel : Nat} {ended : Ended}
    (delivered : exit.deliver fuel kernel = some ended) : ended.Delivers exit kernel := by
  obtain ⟨result, written, same⟩ := Option.bind_eq_some_iff.mp delivered
  cases writes_outcome written with
  | @whole d text =>
      cases same
      have all : d.bytes = exit.ended.bytes := text
      exact ⟨by rw [all], by rw [all, and_iff_left rfl], fun missing => absurd all missing⟩
  | @cut d part missing split text refuses =>
      cases same
      have sent : d.bytes ++ missing = exit.ended.bytes := by
        rw [text]
        exact split
      have notAll : d.bytes ≠ exit.ended.bytes := by
        rw [← sent]
        simpa using refuses.ne_nil
      refine ⟨⟨missing, sent⟩, ?_, fun _ => ⟨fuel, d, missing, written, rfl, sent, refuses⟩⟩
      exact ⟨fun failure => absurd failure Bool.false_ne_true, fun all => absurd all.2 notAll⟩

/-- Whatever the kernel answers, a process whose status is zero has delivered its whole answer and
no message. Any other process has delivered a first part of its bytes. Some are only missing when
the write of this run that should have sent the next of them has failed, and a message only arrives
after the whole output. -/
theorem leads_delivers {kernel : Kernel} {platform : Platform} {conf : Config} {ended : Ended}
    (leads : Leads kernel platform conf (.ok ended)) :
    ∃ exit, Finishes platform conf (.ok exit) ∧
      (ended.success = true ↔ exit.success = true ∧ ended.bytes = exit.ended.bytes) ∧
      (ended.success = true → received .stdout ended.bytes = exit.stdout.flatten ∧
        received .stderr ended.bytes = []) ∧
      (ended.bytes ≠ exit.ended.bytes → ended.bytes <+: exit.ended.bytes ∧
        ∃ fuel d missing, posixWrites fuel kernel exit.writes ⟨0, []⟩ = some (.error d) ∧
          ended.bytes = d.bytes ∧ d.bytes ++ missing = exit.ended.bytes ∧
          kernel.Refuses d missing) ∧
      received .stdout ended.bytes <+: exit.stdout.flatten ∧
      received .stderr ended.bytes <+: exit.stderr.flatten ∧
      (received .stderr ended.bytes ≠ [] →
        received .stdout ended.bytes = exit.stdout.flatten) := by
  obtain ⟨exit, finishes, fuel, delivered⟩ := leads_ok.mp leads
  have delivers := deliver_delivers delivered
  have stdout := received_isPrefix .stdout delivers.part
  have stderr := received_isPrefix .stderr delivers.part
  rw [exit.received_stdout] at stdout
  rw [exit.received_stderr] at stderr
  refine ⟨exit, finishes, delivers.status, ?_, ?_, stdout, stderr,
    exit.stdout_of_stderr delivers.part⟩
  · intro succeeds
    obtain ⟨answered, all⟩ := delivers.status.mp succeeds
    obtain ⟨errors, report, leaves⟩ := finishes.leaves
    rw [all, exit.received_stdout, exit.received_stderr]
    exact ⟨rfl, leaves.quiet answered⟩
  · exact fun missing => ⟨delivers.part, delivers.refused missing⟩

/-- A kernel that takes some bytes at first and fails from then on. -/
def brokenKernel : Kernel where
  file _ := none
  write call _ s := if call = 0 then some ⟨min s.length 3, by omega⟩ else none

/-- The first three bytes arrive before the kernel breaks. -/
theorem leads_delivers_broken :
    Leads brokenKernel emptyPlatform (plainConfig.withArgs [S "--version"])
      (.ok ⟨false, (S "0.3").map (.stdout, ·)⟩) ∧
    ∃ exit, Finishes emptyPlatform (plainConfig.withArgs [S "--version"]) (.ok exit) ∧
      S "0.3" <+: exit.stdout.flatten := by
  have ends : ((runProcess 20 brokenKernel emptyPlatform
      (plainConfig.withArgs [S "--version"])).bind Except.toOption) =
        some ⟨false, (S "0.3").map (.stdout, ·)⟩ := by decide +kernel
  have leads : Leads brokenKernel emptyPlatform (plainConfig.withArgs [S "--version"])
      (.ok ⟨false, (S "0.3").map (.stdout, ·)⟩) := by
    obtain ⟨result, returned, isOk⟩ := Option.bind_eq_some_iff.mp ends
    cases result with
    | error stop => cases isOk
    | ok ended =>
        cases isOk
        exact ⟨20, returned⟩
  obtain ⟨exit, finishes, _, _, _, stdout, _⟩ := leads_delivers leads
  exact ⟨leads, exit, finishes, stdout⟩

end UConfig
