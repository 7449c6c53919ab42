/-
This file gives the grammar of command lines and proves that the loop follows it.
-/

import UConfig.Program.Options

namespace UConfig

/-- A command line consists of operands and of options, whose values may be attached to them. -/
inductive Item where
  | operand (arg : S8)
  | option (name : S8) (value : Option S8)
  | missing (name : S8)

def needsValue (name : S8) : Bool := (optionByName name).any OptionName.takesValue

/-- An argument that does not look like an option. -/
def PlainArg (arg : S8) : Prop := arg.length < 2 ∨ arg.head? ≠ some '-'.toUInt8

instance (arg : S8) : Decidable (PlainArg arg) := inferInstanceAs (Decidable (_ ∨ _))

/-- The ways in which a list of items can be written down. -/
inductive Spells : List S8 → List Item → Prop
  | nil : Spells [] []
  | operand {arg : S8} {args : List S8} {items : List Item} (plain : PlainArg arg)
      (rest : Spells args items) : Spells (arg :: args) (.operand arg :: items)
  /-- Everything behind the two dashes is an operand. -/
  | dashes (args : List S8) : Spells (S "--" :: args) (args.map .operand)
  | attached {name : S8} (value : S8) {args : List S8} {items : List Item}
      (noEquals : '='.toUInt8 ∉ name) (rest : Spells args items) :
      Spells (('-'.toUInt8 :: name ++ '='.toUInt8 :: value) :: args)
        (.option name (some value) :: items)
  | detached {name : S8} (value : S8) {args : List S8} {items : List Item}
      (noEquals : '='.toUInt8 ∉ name) (needs : needsValue name = true) (rest : Spells args items) :
      Spells (('-'.toUInt8 :: name) :: value :: args) (.option name (some value) :: items)
  | flag {name : S8} {args : List S8} {items : List Item} (nonempty : name ≠ [])
      (noDash : name ≠ S "-") (noEquals : '='.toUInt8 ∉ name) (lacks : needsValue name = false)
      (rest : Spells args items) :
      Spells (('-'.toUInt8 :: name) :: args) (.option name none :: items)
  | missing {name : S8} (noEquals : '='.toUInt8 ∉ name) (needs : needsValue name = true) :
      Spells [('-'.toUInt8 :: name)] [.missing name]

/-- Every argument that looks like an option has something behind its dash. -/
theorem exists_name {arg : S8} (isOption : ¬PlainArg arg) :
    ∃ name, arg = '-'.toUInt8 :: name ∧ name ≠ [] := by
  rw [PlainArg, not_or, not_not] at isOption
  obtain ⟨long, dash⟩ := isOption
  cases arg with
  | nil => cases dash
  | cons c name =>
      rw [List.head?_cons, Option.some.injEq] at dash
      rw [List.length_cons] at long
      exact ⟨name, by rw [dash], List.ne_nil_of_length_pos (by omega)⟩

/-- Every command line can be read. -/
theorem exists_spells (args : List S8) : ∃ items, Spells args items := by
  induction same : args.length using Nat.strongRecOn generalizing args with
  | ind size ih =>
      cases args with
      | nil => exact ⟨[], .nil⟩
      | cons arg args =>
          rw [List.length_cons] at same
          obtain ⟨items, rest⟩ := ih args.length (by omega) args rfl
          by_cases plain : PlainArg arg
          · exact ⟨_, .operand plain rest⟩
          obtain ⟨name, rfl, nonempty⟩ := exists_name plain
          by_cases noDash : name = S "-"
          · rw [noDash]
            exact ⟨_, .dashes args⟩
          by_cases equals : '='.toUInt8 ∈ name
          · obtain ⟨head, value, rfl, noEquals⟩ := List.eq_append_cons_of_mem equals
            exact ⟨_, .attached value noEquals rest⟩
          cases needs : needsValue name with
          | false => exact ⟨_, .flag nonempty noDash equals needs rest⟩
          | true =>
              cases args with
              | nil => exact ⟨_, .missing equals needs⟩
              | cons value args =>
                  rw [List.length_cons] at same
                  obtain ⟨items, rest⟩ := ih args.length (by omega) args rfl
                  exact ⟨_, .detached value equals needs rest⟩

def Item.effect (conf : Config) (settings : Settings) : Item → OptionEffect
  | operand arg => .inl { settings with args := settings.args ++ [arg] }
  | option name value =>
      match optionByName name with
      | none => failUsage (.unknownOption name)
      | some known => settings.apply conf known (value.getD [])
  | missing name => failUsage (.argumentMissing name)

/-- The items are followed until one of them ends the program. -/
def followItems (conf : Config) (settings : Settings) : List Item → OptionEffect
  | [] => .inl settings
  | item :: items =>
      match item.effect conf settings with
      | .inl settings => followItems conf settings items
      | .inr report => .inr report

/-- A cut at a byte that the head does not have. -/
theorem s8Cut_found {head : S8} {delim : UInt8} (outside : delim ∉ head) (tail : S8) :
    s8Cut (head ++ delim :: tail) delim = ⟨head, tail, true⟩ := by
  have passed : ∀ c ∈ head, (c != delim) = true := by
    intro c member
    simpa using fun same : c = delim => outside (same ▸ member)
  rw [s8Cut, List.takeWhile_append_of_pos passed, List.dropWhile_append_of_pos passed]
  simp

/-- A string without the delimiter is not cut. -/
theorem s8Cut_missing {s : S8} {delim : UInt8} (outside : delim ∉ s) :
    (s8Cut s delim).ok = false := by
  rw [s8Cut, ← Bool.not_eq_true, List.contains_iff_mem]
  exact outside

/-- A plain argument is an operand. -/
theorem nextArg_plain {arg : S8} (plain : PlainArg arg) (dashdash : Bool) (args : List S8) :
    nextArg dashdash (arg :: args) = some (⟨arg, none, false⟩, ⟨args, dashdash⟩) := by
  rw [nextArg, if_pos]
  rcases plain with short | noDash
  · simp [short]
  · simp [noDash]

/-- Behind two dashes every argument is an operand. -/
theorem nextArg_operand (arg : S8) (args : List S8) :
    nextArg true (arg :: args) = some (⟨arg, none, false⟩, ⟨args, true⟩) := by
  rw [nextArg, if_pos]
  rfl

/-- Two dashes are dropped. -/
theorem nextArg_dashes (args : List S8) : nextArg false (S "--" :: args) = nextArg true args := by
  rw [nextArg, if_neg (by decide), if_pos rfl]

/-- What looks like an option is cut at its first equals sign. -/
theorem nextArg_option {name : S8} (nonempty : name ≠ []) (noDash : name ≠ S "-")
    (args : List S8) :
    nextArg false (('-'.toUInt8 :: name) :: args) =
      some (if (s8Cut name '='.toUInt8).ok then
          ⟨(s8Cut name '='.toUInt8).head, some (s8Cut name '='.toUInt8).tail, true⟩
        else ⟨name, none, true⟩, ⟨args, false⟩) := by
  have long := List.length_pos_of_ne_nil nonempty
  have looks : ¬(false || decide (('-'.toUInt8 :: name).length < 2) ||
      ('-'.toUInt8 :: name).head? != some '-'.toUInt8) = true := by
    simp
    omega
  have notDashes : '-'.toUInt8 :: name ≠ S "--" := by
    intro same
    exact noDash (List.cons.inj same).2
  rw [nextArg, if_neg looks, if_neg notDashes, List.drop_one, List.tail_cons]
  dsimp only
  split <;> rfl

/-- The items are what the loop follows from these options and settings on. -/
def Obeys (conf : Config) (opts : Options) (settings : Settings) (items : List Item) : Prop :=
  Loop.Ends (optionBody conf) ⟨opts, settings⟩ (followItems conf settings items)

/-- One turn does what one item says. -/
theorem obeys_cons {conf : Config} {opts opts' : Options} {settings : Settings} {item : Item}
    {items : List Item}
    (turn : optionBody conf ⟨opts, settings⟩ = (match item.effect conf settings with
      | .inl settings => .inl ⟨opts', settings⟩
      | .inr report => .inr (.inr report)))
    (rest : ∀ settings, Obeys conf opts' settings items) :
    Obeys conf opts settings (item :: items) := by
  rw [Obeys, followItems]
  cases effect : item.effect conf settings with
  | inl next =>
      rw [effect] at turn
      exact (rest next).after (.single turn)
  | inr report =>
      rw [effect] at turn
      exact ⟨_, .refl, turn⟩

/-- Behind two dashes the program collects operands. -/
theorem obeys_operands (conf : Config) (args : List S8) (settings : Settings) :
    Obeys conf ⟨args, true⟩ settings (args.map .operand) := by
  induction args generalizing settings with
  | nil => exact ⟨_, .refl, rfl⟩
  | cons arg args ih =>
      apply obeys_cons ?_ ih
      rw [optionBody, nextOption, nextArg_operand]
      rfl

/-- Only the options that take a value read one. -/
theorem apply_lacks (conf : Config) (settings : Settings) {option : OptionName}
    (lacks : option.takesValue = false) (value : S8) :
    settings.apply conf option value = settings.apply conf option [] := by
  cases option <;> first | rfl | cases lacks

/-- An option whose value is known has the effect of its item. -/
theorem optionBody_option {conf : Config} {opts opts' : Options} {settings : Settings}
    {name : S8} {value : Option S8}
    (next : nextOption opts = some (⟨name, value, true⟩, opts'))
    (known : needsValue name = true → value.isSome = true) :
    optionBody conf ⟨opts, settings⟩ =
      (match (Item.option name value).effect conf settings with
      | .inl settings => .inl ⟨opts', settings⟩
      | .inr report => .inr (.inr report)) := by
  rw [optionBody, next]
  dsimp only [Bool.not_true]
  rw [if_neg (by decide), Item.effect]
  cases found : optionByName name with
  | none => rfl
  | some option =>
      rw [needsValue, found, Option.any_some] at known
      dsimp only
      rw [optionTurn]
      cases takes : option.takesValue with
      | false =>
          rw [apply_lacks conf settings takes (value.getD [])]
          rfl
      | true =>
          obtain ⟨value, rfl⟩ := Option.isSome_iff_exists.mp (known takes)
          rw [if_pos rfl]
          rfl

/-- An option that needs its value takes the next argument. -/
theorem optionBody_detached {conf : Config} {opts opts' : Options} {settings : Settings}
    {name : S8} (next : nextOption opts = some (⟨name, none, true⟩, opts'))
    (needs : needsValue name = true) :
    optionBody conf ⟨opts, settings⟩ =
      match getArgOpt opts' with
      | none => .inr (failUsage (.argumentMissing name))
      | some (value, opts') =>
          match (Item.option name (some value)).effect conf settings with
          | .inl settings => .inl ⟨opts', settings⟩
          | .inr report => .inr (.inr report) := by
  rw [optionBody, next]
  dsimp only [Bool.not_true]
  rw [if_neg (by decide)]
  cases found : optionByName name with
  | none =>
      rw [needsValue, found] at needs
      cases needs
  | some option =>
      rw [needsValue, found, Option.any_some] at needs
      dsimp only
      rw [optionTurn, if_pos needs]
      cases getArgOpt opts' with
      | none => rfl
      | some fetched =>
          dsimp only
          rw [Item.effect, found]
          rfl

/-- A name that needs a value is an option of the program. -/
theorem needsValue_name {name : S8} (needs : needsValue name = true) :
    name ≠ [] ∧ name ≠ S "-" := by
  constructor <;>
  · rintro rfl
    revert needs
    decide

/-- The loop follows the items of its command line. -/
theorem Spells.obeys {args : List S8} {items : List Item} (spells : Spells args items)
    (conf : Config) (settings : Settings) : Obeys conf ⟨args, false⟩ settings items := by
  induction spells generalizing settings with
  | nil => exact ⟨_, .refl, rfl⟩
  | operand plain _ ih =>
      apply obeys_cons ?_ ih
      rw [optionBody, nextOption, nextArg_plain plain]
      rfl
  | dashes args =>
      -- The two dashes are passed over in the turn that reads the next argument.
      have same : ∀ settings, optionBody conf ⟨⟨S "--" :: args, false⟩, settings⟩ =
          optionBody conf ⟨⟨args, true⟩, settings⟩ := by
        intro settings
        rw [optionBody, optionBody, nextOption, nextOption, nextArg_dashes]
      obtain ⟨last, runs, leaves⟩ := obeys_operands conf args settings
      rcases Relation.ReflTransGen.cases_head runs with rfl | ⟨next, turn, runs⟩
      · exact ⟨_, .refl, (same settings).trans leaves⟩
      · exact ⟨last, runs.head ((same settings).trans turn), leaves⟩
  | @attached name value args items noEquals _ ih =>
      apply obeys_cons ?_ ih
      apply optionBody_option ?_ (fun _ => rfl)
      have cut := s8Cut_found noEquals value
      have nonempty : name ++ '='.toUInt8 :: value ≠ [] := by simp
      have noDash : name ++ '='.toUInt8 :: value ≠ S "-" := by
        intro same
        have equals : '='.toUInt8 ∈ S "-" := by
          rw [← same]
          simp
        revert equals
        decide
      rw [nextOption, List.cons_append, nextArg_option nonempty noDash, cut]
      rfl
  | @detached name value args items noEquals needs _ ih =>
      apply obeys_cons ?_ ih
      obtain ⟨nonempty, noDash⟩ := needsValue_name needs
      have next : nextOption ⟨('-'.toUInt8 :: name) :: value :: args, false⟩ =
          some (⟨name, none, true⟩, ⟨value :: args, false⟩) := by
        rw [nextOption, nextArg_option nonempty noDash, s8Cut_missing noEquals]
        rfl
      rw [optionBody_detached next needs]
      rfl
  | @flag name args items nonempty noDash noEquals lacks _ ih =>
      apply obeys_cons ?_ ih
      apply optionBody_option
      · rw [nextOption, nextArg_option nonempty noDash, s8Cut_missing noEquals]
        rfl
      · rw [lacks]
        exact fun needs => absurd needs (by decide)
  | @missing name noEquals needs =>
      obtain ⟨nonempty, noDash⟩ := needsValue_name needs
      have next : nextOption ⟨[('-'.toUInt8 :: name)], false⟩ =
          some (⟨name, none, true⟩, ⟨[], false⟩) := by
        rw [nextOption, nextArg_option nonempty noDash, s8Cut_missing noEquals]
        rfl
      refine ⟨_, .refl, ?_⟩
      rw [optionBody_detached next needs]
      rfl

/-- The configuration with another command line. -/
def Config.withArgs (conf : Config) (args : List S8) : Config := { conf with args := args }

/-- The arguments of the configuration have no influence on the options themselves. -/
theorem apply_withArgs (conf : Config) (args : List S8) (settings : Settings)
    (option : OptionName) (value : S8) :
    settings.apply (conf.withArgs args) option value = settings.apply conf option value := by
  cases option <;> rfl

/-- Items do not read the command line again. -/
theorem followItems_withArgs (conf : Config) (args : List S8) (settings : Settings)
    (items : List Item) :
    followItems (conf.withArgs args) settings items = followItems conf settings items := by
  induction items generalizing settings with
  | nil => rfl
  | cons item items ih =>
      have same : item.effect (conf.withArgs args) settings = item.effect conf settings := by
        cases item with
        | operand arg | missing name => rfl
        | option name value => simp only [Item.effect, apply_withArgs]
      rw [followItems, followItems, same]
      cases item.effect conf settings with
      | inl next => exact ih next
      | inr report => rfl

/-- What the options do is what the items of the command line do. -/
theorem readOptions_iff {args : List S8} {items : List Item} (spells : Spells args items)
    {conf : Config} {effect : OptionEffect} :
    (∃ fuel, readOptions fuel (conf.withArgs args) = some effect) ↔
      effect = followItems conf (startSettings conf) items := by
  have ends := spells.obeys (conf.withArgs args) (startSettings conf)
  rw [Obeys, followItems_withArgs] at ends
  constructor
  · rintro ⟨fuel, returned⟩
    exact (Loop.ends_of_run returned).unique ends
  · rintro rfl
    exact Loop.run_of_ends ends

/-- A command line that is accepted leads to settings. -/
theorem exists_settings {read : Option OptionEffect}
    (accepted : (read.bind Sum.getLeft?).isSome = true) :
    ∃ settings, read = some (.inl settings) := by
  obtain ⟨settings, found⟩ := Option.isSome_iff_exists.mp accepted
  obtain ⟨effect, returned, isLeft⟩ := Option.bind_eq_some_iff.mp found
  rw [Sum.getLeft?_eq_some_iff] at isLeft
  exact ⟨settings, by rw [returned, isLeft]⟩

/-- The smallest configuration, which searches one directory. -/
def plainConfig : Config where
  args := []
  pcPath := none
  pcSysIncPath := none
  pcSysLibPath := none
  envPath := none
  fixedPath := some (S "d")
  topBuildDir := none
  sysIncPath := none
  sysLibPath := none
  printSysInc := none
  printSysLib := none
  definePrefix := true
  hasListing := false
  delim := ':'.toUInt8

end UConfig
