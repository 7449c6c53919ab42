/-
This file proves on which command lines the pointers of the array run into its byte buffer.
-/

import UConfig.Proof.Cmdline.Run

namespace UConfig

open Unicode

/-- A blank stands in front of every token of one unit, and only the last token may be a quote. -/
def alternates : List Nat → Bool
  | [] => true
  | [_] => false
  | blank :: token :: rest =>
      isBlank blank && !isBlank token && (token != 0x22 || rest.isEmpty) && alternates rest

/-- The longest command lines with as many arguments as possible. -/
def CommandLine.Extreme (line : CommandLine) : Prop :=
  line.units.length = 32766 ∧ alternates (line.units.map UInt16.toNat) = true

namespace ArgScan

/-- A turn moves to the state of the table. -/
theorem turn_state (a : ArgScan) (c : Nat) :
    (a.turn c).state = (argMove a.state a.slash c).state := by
  rw [turn, ArgScan.move]
  split <;> rfl

/-- A step keeps the scan in order. -/
theorem Ok.step {a : ArgScan} (ok : a.Ok) (c : Nat) : (a.step c).Ok := by
  rw [ArgScan.step]
  split
  · exact ((ok.turn c).ok.turn c).ok
  · exact (ok.turn c).ok

/-- A step gives away at most one unit. -/
theorem Ok.lead_step {a : ArgScan} (ok : a.Ok) (c : Nat) :
    2 * (a.step c).args.length + a.state.lead ≤
      2 * a.args.length + (a.step c).state.lead + 1 := by
  have first := ok.lead_turn c
  rw [ArgScan.step]
  split
  case isTrue reread =>
    have second := (ok.turn c).ok.lead_turn c
    rw [if_pos reread] at first
    split at second <;> omega
  case isFalse reads =>
    rw [if_neg reads] at first
    exact first

/-- Each unit brings the scan at most half an argument further. -/
theorem Ok.lead_fold {a : ArgScan} (ok : a.Ok) (cs : List Nat) :
    2 * (cs.foldl ArgScan.step a).args.length + a.state.lead ≤
      2 * a.args.length + (cs.foldl ArgScan.step a).state.lead + cs.length := by
  induction cs generalizing a with
  | nil => exact Nat.le_refl _
  | cons c cs ih =>
      have first := ok.lead_step c
      have rest := ih (ok.step c)
      rw [List.foldl_cons, List.length_cons]
      omega

/-- Every code point of the list gives a unit away. -/
def Full (a : ArgScan) (cs : List Nat) : Prop :=
  2 * (cs.foldl ArgScan.step a).args.length + a.state.lead =
    2 * a.args.length + (cs.foldl ArgScan.step a).state.lead + cs.length

/-- A scan that ends full has gained as much as it can with each unit. -/
theorem Full.tail {a : ArgScan} {c : Nat} {cs : List Nat} (ok : a.Ok) (full : a.Full (c :: cs)) :
    (a.step c).Full cs ∧ 2 * (a.step c).args.length + a.state.lead =
      2 * a.args.length + (a.step c).state.lead + 1 := by
  have first := ok.lead_step c
  have rest := (ok.step c).lead_fold cs
  rw [Full, List.foldl_cons, List.length_cons] at full
  constructor
  · rw [Full]
    omega
  · omega

/-- The state after a step, where a unit may be read again. -/
theorem step_state (a : ArgScan) (c : Nat) :
    (a.step c).state = if (argMove a.state a.slash c).reread then
      (argMove (argMove a.state a.slash c).state (a.turn c).slash c).state
    else (argMove a.state a.slash c).state := by
  rw [ArgScan.step]
  split
  · rw [turn_state, turn_state]
  · rw [turn_state]

/-- The states in front of the end of a token. -/
def Waits (state : ArgState) : Prop :=
  state = .begin ∨ state = .unquoted ∨ state = .slashUnquoted

/-- A scan that waits is inside of an argument. -/
theorem waits_inside {state : ArgState} (waits : Waits state) : state ≠ .outside := by
  rcases waits with rfl | rfl | rfl <;> decide

/-- A blank is needed to end an argument in these states. -/
theorem step_closes {a : ArgScan} (waits : Waits a.state) (c : Nat) :
    (a.step c).state = .outside ↔ isBlank c = true := by
  rw [step_state]
  rcases waits with same | same | same
  · rw [same]
    simp only [argMove]
    split_ifs <;> simp_all
  · rw [same]
    simp only [argMove]
    split_ifs <;> simp_all
  · rw [same]
    simp only [argMove, slashMove]
    split_ifs <;> simp_all [isBlank]

/-- No code point ends a quoted argument. -/
theorem step_quoted {a : ArgScan} (quoted : a.state = .quoted) (c : Nat) :
    (a.step c).state ≠ .outside := by
  rw [step_state, quoted]
  simp only [argMove]
  split_ifs <;> simp_all

/-- An argument starts at a code point that is no blank. -/
theorem step_opens {a : ArgScan} (outside : a.state = .outside) (c : Nat) :
    ((a.step c).state ≠ .outside ↔ isBlank c = false) ∧
      (isBlank c = false → if c = 0x22 then (a.step c).state = .quoted else Waits (a.step c).state) := by
  rw [step_state, outside]
  simp only [argMove]
  split_ifs <;> simp_all [Waits]

/-- An argument begins when the scan leaves the space between arguments. -/
theorem Ok.turn_args {a : ArgScan} (ok : a.Ok) (c : Nat) :
    (a.turn c).args.length = a.args.length +
      if a.state = .outside ∧ (a.turn c).state ≠ .outside then 1 else 0 := by
  have kind := argMove_kind a.state a.slash c
  rw [(ok.turn c).args, turn_state]
  generalize argMove a.state a.slash c = move at kind
  cases kind with
  | skips outside => simp
  | opens outside inside goesOn first => simp [outside, inside]
  | closes inside => simp
  | copies inside inside' goesOn counts => simp [inside]
  | rewinds isSlash base goesOn either => simp [isSlash_inside isSlash]
  | rereads inside later base => simp [inside]

/-- A step adds an argument when it leaves the blanks. -/
theorem Ok.step_args {a : ArgScan} (ok : a.Ok) (c : Nat) :
    (a.step c).args.length = a.args.length +
      if a.state = .outside ∧ (a.step c).state ≠ .outside then 1 else 0 := by
  rw [ArgScan.step]
  split
  case isTrue reread =>
    obtain ⟨_, _, inside, later, _⟩ := reread_once reread
    have before : a.state ≠ .outside := by
      rcases later with isSlash | same
      · exact isSlash_inside isSlash
      · rw [same]
        decide
    have between : (a.turn c).state ≠ .outside := by
      rw [turn_state]
      exact inside
    rw [(ok.turn c).ok.turn_args, ok.turn_args, if_neg fun both => before both.1,
      if_neg fun both => between both.1, if_neg fun both => before both.1]
  case isFalse => exact ok.turn_args c

/-- A list of code points that gives a unit away each time alternates. -/
theorem alternates_of_full {a : ArgScan} {cs : List Nat} (ok : a.Ok) (waits : Waits a.state)
    (even : cs.length % 2 = 0) (full : a.Full cs) : alternates cs = true := by
  induction cs using alternates.induct generalizing a with
  | case1 => rfl
  | case2 c => cases even
  | case3 blank token rest ih =>
      obtain ⟨afterBlank, first⟩ := full.tail ok
      obtain ⟨afterToken, second⟩ := afterBlank.tail (ok.step blank)
      have closed : (a.step blank).state = .outside := by
        by_contra inside
        rw [lead_inside inside, lead_inside (waits_inside waits)] at first
        omega
      have opened : ((a.step blank).step token).state ≠ .outside := by
        intro outside
        rw [outside, closed, lead_outside] at second
        omega
      have isBlank := (step_closes waits blank).mp closed
      obtain ⟨opens, next⟩ := step_opens closed token
      have notBlank := opens.mp opened
      have next := next notBlank
      rw [alternates, isBlank, notBlank]
      split at next
      case isTrue quote =>
        -- A quoted argument gives no further unit away.
        have last : rest = [] := by
          cases rest with
          | nil => rfl
          | cons c cs =>
              have third := (afterToken.tail ((ok.step blank).step token)).2
              rw [lead_inside (step_quoted next c), lead_inside opened] at third
              omega
        rw [last, alternates]
        simp
      case isFalse notQuote =>
        have even' : rest.length % 2 = 0 := by
          simp only [List.length_cons] at even
          omega
        have below := ih ((ok.step blank).step token) next even' afterToken
        rw [below]
        simp [notQuote]

/-- Every two code points of an alternating list add an argument. -/
theorem args_of_alternates {a : ArgScan} {cs : List Nat} (ok : a.Ok) (waits : Waits a.state)
    (alternating : alternates cs = true) :
    2 * (cs.foldl ArgScan.step a).args.length = 2 * a.args.length + cs.length := by
  induction cs using alternates.induct generalizing a with
  | case1 => rfl
  | case2 c => cases alternating
  | case3 blank token rest ih =>
      simp only [alternates, Bool.and_eq_true, Bool.not_eq_true', Bool.or_eq_true, bne_iff_ne,
        List.isEmpty_iff] at alternating
      obtain ⟨⟨⟨isBlank, notBlank⟩, quote⟩, below⟩ := alternating
      have closed := (step_closes waits blank).mpr isBlank
      obtain ⟨opens, next⟩ := step_opens closed token
      have opened := opens.mpr notBlank
      have count : ((a.step blank).step token).args.length = a.args.length + 1 := by
        have first := ok.step_args blank
        have second := (ok.step blank).step_args token
        rw [if_neg fun both => waits_inside waits both.1] at first
        rw [if_pos ⟨closed, opened⟩] at second
        omega
      simp only [List.foldl_cons, List.length_cons]
      by_cases isQuote : token = 0x22
      · have last := quote.resolve_left (not_not.mpr isQuote)
        rw [last, List.foldl_nil, count, List.length_nil]
        omega
      · have waits' := next notBlank
        rw [if_neg isQuote] at waits'
        rw [ih ((ok.step blank).step token) waits' below, count]
        omega

end ArgScan

/-- The blanks are ASCII. -/
theorem isBlank_ascii {c : Nat} (blank : isBlank c = true) : c < 0x80 := by
  simp only [isBlank, Bool.or_eq_true, beq_iff_eq] at blank
  omega

/-- The blanks separate the surrogates of an alternating command line. -/
theorem codePoints_of_alternates {units : S16}
    (alternating : alternates (units.map UInt16.toNat) = true) :
    codePoints units = units.map UInt16.toNat := by
  match units with
  | [] => rfl
  | [unit] => rfl
  | blank :: token :: rest =>
      simp only [List.map_cons, alternates, Bool.and_eq_true] at alternating
      obtain ⟨⟨⟨isBlank, _⟩, _⟩, below⟩ := alternating
      have border : ∀ unit ∈ rest.head?, isLowSurrogate unit = false := by
        intro unit first
        cases rest with
        | nil => cases first
        | cons next rest =>
            cases first
            cases rest with
            | nil => cases below
            | cons other rest =>
                simp only [List.map_cons, alternates, Bool.and_eq_true] at below
                exact (ascii_single (isBlank_ascii below.1.1.1)).2
      rw [codePoints_ascii (isBlank_ascii isBlank), codePoints_cons fun _ => border,
        codePoints_of_alternates below]
      rfl

/-- There is a slot for the null pointer unless the command line is extreme. -/
theorem producedArgs_below_iff (line : CommandLine) :
    (producedArgs line.units).length < 16384 ↔ ¬ line.Extreme := by
  have short := line.short
  rw [cmdlineCmdMax] at short
  constructor
  · rintro below ⟨longest, alternating⟩
    have count := ArgScan.args_of_alternates ArgScan.ok_start (.inl rfl) alternating
    rw [List.length_map, longest] at count
    rw [producedArgs, codePoints_of_alternates alternating] at below
    have start : ArgScan.start.args.length = 1 := rfl
    omega
  · intro notExtreme
    by_contra above
    apply notExtreme
    have count := ArgScan.ok_start.lead_fold (codePoints line.units)
    have start : ArgScan.start.args.length = 1 := rfl
    have lead : ArgScan.start.state.lead = 2 := rfl
    have final := lead_le ((codePoints line.units).foldl ArgScan.step .start).state
    rw [producedArgs] at above
    rcases length_codePoints line.units with fewer | same
    · omega
    · have length : (codePoints line.units).length = line.units.length := by
        rw [same, List.length_map]
      have longest : line.units.length = 32766 := by omega
      have full : ArgScan.start.Full (codePoints line.units) := by
        rw [ArgScan.Full]
        omega
      have even : (codePoints line.units).length % 2 = 0 := by
        rw [length, longest]
      have alternating := ArgScan.alternates_of_full ArgScan.ok_start (.inl rfl) even full
      rw [same] at alternating
      exact ⟨longest, alternating⟩

variable {P : PointerSize}

/-- A slot holds one pointer. -/
theorem PointsTo.unique {mem : Memory ArgvCell} {index : Nat} {target other : Option Int}
    (first : PointsTo P mem index target) (second : PointsTo P mem index other) :
    target = other := by
  have left := first 0 (by rw [PointerSize.length_cells]; exact P.positive)
  have right := second 0 (by rw [PointerSize.length_cells]; exact P.positive)
  rw [left] at right
  simp only [PointerSize.cells, List.getElem_map] at right
  cases right
  rfl

/-- The last pointer leads to the start of the last argument, and no move goes back behind it. -/
theorem Along.retreat {line : CommandLine} {m : ArgvMachine} {a : ArgScan}
    (along : Along P line m a) (c : Nat) {base : Int}
    (last : PointsTo P m.mem (m.argc - 1) (some base)) :
    base ≤ m.buf - (argMove m.state m.slash c).retreat := by
  obtain ⟨sameState, sameSlash, argc, buf, _, slots⟩ := along.simulates
  have moved := along.ok.turn c
  have positive := along.positive
  have known := slots (a.args.length - 1) (by omega)
  rw [argc] at last
  cases last.unique known
  have text : argOffset a.done a.done.length + (a.cur.getD []).length = a.text.length := by
    rw [argOffset, List.take_length, ArgScan.text, List.length_append]
  rw [buf, sameState, sameSlash]
  cases isOpen : a.cur with
  | none =>
      have earlier : argOffset a.done (a.args.length - 1) ≤ argOffset a.done a.done.length := by
        apply List.Sublist.length_le
        apply List.Sublist.flatMap
        rw [List.take_length]
        exact List.take_sublist _ _
      rw [moved.still isOpen]
      omega
  | some s =>
      have count : a.args.length - 1 = a.done.length := by
        rw [length_args, isOpen]
        rfl
      have enough := moved.retreat s isOpen
      rw [isOpen, Option.getD_some] at text
      rw [count]
      omega

/-- The pointers of the array and its bytes never meet. -/
structure NeverCollides (P : PointerSize) (argv : Memory ArgvCell) (line : CommandLine) : Prop where
  /-- A pointer that is stored on the way has a slot in front of the buffer. -/
  slots : ∀ m, Loop.Runs (argvBody P) (argvStart P argv line.units) m → ∀ next,
    nextRune m.cmd = some next → (argMove m.state m.slash next.rune).starts = true → m.argc < 16384
  /-- The cursor stays behind the start of the last argument. -/
  retreats : ∀ m, Loop.Runs (argvBody P) (argvStart P argv line.units) m → ∀ next,
    nextRune m.cmd = some next → ∀ base, PointsTo P m.mem (m.argc - 1) (some base) →
      base ≤ m.buf - (argMove m.state m.slash next.rune).retreat
  /-- No write is a fault, and the null pointer has a slot in front of the buffer. -/
  returns : ∃ result, CmdlineToArgv8 P argv line.units result ∧ result.argc < 16384 ∧
    HoldsArgs P result (producedArgs line.units)

/-- Only the null pointer of an extreme command line is stored in the buffer. -/
theorem neverCollides_iff (P : PointerSize) (argv : Memory ArgvCell) (line : CommandLine) :
    NeverCollides P argv line ↔ ¬ line.Extreme := by
  rw [← producedArgs_below_iff]
  obtain ⟨result, ends, argc, _, holds⟩ := argv_returns P argv line
  constructor
  · rintro ⟨_, _, result', ends', below, _⟩
    cases ends.unique ends'
    exact argc ▸ below
  · intro below
    rw [← argc] at below
    constructor
    · intro m runs next found starts
      obtain ⟨a, along⟩ := along_runs runs
      rw [along.simulates.state, along.simulates.slash] at starts
      rw [along.simulates.argc]
      exact along.few found starts
    · intro m runs next found base last
      obtain ⟨a, along⟩ := along_runs runs
      exact along.retreat next.rune last
    · exact ⟨result, ends, below, holds below⟩

/-- Blanks and one letter take turns. -/
def alternatingUnits (count : Nat) : S16 := (List.replicate count [0x20, 0x61]).flatten

/-- Every argument of the line takes two units. -/
theorem length_alternatingUnits (count : Nat) : (alternatingUnits count).length = 2 * count := by
  simp [alternatingUnits, Nat.mul_comm]

/-- The line has a blank before each of its letters. -/
theorem alternates_alternatingUnits (count : Nat) :
    alternates ((alternatingUnits count).map UInt16.toNat) = true := by
  induction count with
  | zero => rfl
  | succ count ih =>
      rw [alternatingUnits, List.replicate_succ, List.flatten_cons, List.map_append]
      exact ih

/-- A command line of 16383 letters, each with a blank in front of it. -/
def extremeLine : CommandLine where
  units := alternatingUnits 16383
  nonzero := by
    intro zero
    obtain ⟨pair, isPair, inPair⟩ := List.mem_flatten.mp zero
    rw [(List.mem_replicate.mp isPair).2] at inPair
    revert inPair
    decide
  short := by
    rw [length_alternatingUnits]
    decide

/-- The null pointer behind its arguments is stored over the first bytes of the buffer. -/
theorem extremeLine_collides :
    ¬ NeverCollides ⟨8, by decide⟩ (fun _ => .byte 0) extremeLine ∧
      ∃ result, CmdlineToArgv8 ⟨8, by decide⟩ (fun _ => .byte 0) extremeLine.units result ∧
        result.argc = 16384 ∧ PointsTo ⟨8, by decide⟩ result.argv 16384 none := by
  have extreme : extremeLine.Extreme :=
    ⟨length_alternatingUnits _, alternates_alternatingUnits _⟩
  have notBelow := (producedArgs_below_iff extremeLine).not_left.mpr extreme
  obtain ⟨result, ends, argc, null, _⟩ :=
    argv_returns ⟨8, by decide⟩ (fun _ => .byte 0) extremeLine
  have atMost := length_producedArgs ⟨8, by decide⟩ extremeLine
  have count : result.argc = 16384 := by omega
  constructor
  · rintro ⟨_, _, result', ends', below, _⟩
    cases ends.unique ends'
    omega
  · exact ⟨result, ends, count, count ▸ null⟩

end UConfig
