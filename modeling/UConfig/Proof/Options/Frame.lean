/-
This file proves that no option reads the operands or the silence of the messages.
-/

import UConfig.Proof.Options.Reading

namespace UConfig

namespace Settings

def withArgs (args : List S8) (settings : Settings) : Settings := { settings with args := args }

/-- A change of the operands and of the silence. -/
def overlay (args : List S8 → List S8) (silent : Bool → Bool) (settings : Settings) : Settings :=
  { settings with args := args settings.args, silent := silent settings.silent }

/-- An option has the same effect before and after such a change. -/
theorem apply_overlay (args : List S8 → List S8) (silent : Bool → Bool)
    (stays : silent true = true) (conf : Config) (settings : Settings) (option : OptionName)
    (value : S8) :
    (settings.overlay args silent).apply conf option value =
      (settings.apply conf option value).map (overlay args silent) id := by
  cases option with
  | withPath =>
      simp only [apply, overlay]
      cases prependPath settings.nodes settings.search value <;> rfl
  | defineVariable =>
      simp only [apply, overlay]
      split <;> rfl
  | listAll | listPackageNames =>
      simp only [apply, list, overlay]
      split <;> rfl
  | existence | silenceErrors | validate | atleastVersion | exactVersion | maxVersion =>
      simp [apply, override, overlay, stays]
  | _ => rfl

/-- The settings after an option, which are the old ones when the option ends the program. -/
def update (conf : Config) (settings : Settings) (option : OptionName) (value : S8) : Settings :=
  (settings.apply conf option value).getLeft?.getD settings

/-- An option that is accepted updates the settings. -/
theorem apply_update {conf : Config} {settings next : Settings} {option : OptionName} {value : S8}
    (applied : settings.apply conf option value = .inl next) :
    next = settings.update conf option value := by
  rw [update, applied]
  rfl

/-- A new path is put in front of the search list and changes nothing else. -/
@[simp] theorem update_withPath (conf : Config) (settings : Settings) (value : S8) :
    settings.update conf .withPath value =
      let dirs := (prependPath settings.nodes settings.search value).getD
        (settings.nodes, settings.search)
      { settings with nodes := dirs.1, search := dirs.2 } := by
  rw [update, apply]
  split
  case h_1 missing => simp [missing]
  case h_2 dirs prepended => simp [prepended]

/-- A definition changes nothing but the variables. -/
@[simp] theorem update_defineVariable (conf : Config) (settings : Settings) (value : S8) :
    settings.update conf .defineVariable value =
      let c := s8Cut value '='.toUInt8
      { settings with global :=
          if c.ok then settings.global.assign c.head (some c.tail) else settings.global } := by
  rw [update, apply]
  dsimp only
  split <;> rfl

/-- A listing that is accepted changes nothing but the kind of the listing. -/
theorem getD_list (conf : Config) (settings : Settings) (option : OptionName) (kind : ListKind) :
    (settings.list conf option kind).getLeft?.getD settings =
      { settings with listing := if conf.hasListing then kind else settings.listing } := by
  rw [list]
  split <;> rfl

@[simp] theorem update_listAll (conf : Config) (settings : Settings) (value : S8) :
    settings.update conf .listAll value =
      { settings with listing := if conf.hasListing then .all else settings.listing } :=
  getD_list conf settings .listAll .all

@[simp] theorem update_listPackageNames (conf : Config) (settings : Settings) (value : S8) :
    settings.update conf .listPackageNames value =
      { settings with listing := if conf.hasListing then .names else settings.listing } :=
  getD_list conf settings .listPackageNames .names

end Settings

/-- An item that has the same effect before and after a change of the settings. -/
def Item.Ignores (item : Item) (change : Settings → Settings) : Prop :=
  ∀ conf settings, item.effect conf (change settings) =
    (item.effect conf settings).map change id

def Item.isOption : Item → Bool
  | operand _ => false
  | option _ _ | missing _ => true

def Item.operand? : Item → Option S8
  | operand arg => some arg
  | option _ _ | missing _ => none

/-- The operands of a command line and its options, each in their order. -/
def operands (items : List Item) : List S8 := items.filterMap Item.operand?

def options (items : List Item) : List Item := items.filter Item.isOption

/-- Options ignore the operands and the silence. -/
theorem Item.ignores_overlay {item : Item} (isOption : item.isOption = true)
    (args : List S8 → List S8) (silent : Bool → Bool) (stays : silent true = true) :
    item.Ignores (Settings.overlay args silent) := by
  intro conf settings
  cases item with
  | operand arg => cases isOption
  | missing name => rfl
  | option name value =>
      simp only [effect]
      cases optionByName name with
      | none => rfl
      | some known => exact Settings.apply_overlay args silent stays conf settings known _

/-- A change that all items ignore comes before or after them. -/
theorem followItems_change {change : Settings → Settings} {items : List Item}
    (ignored : ∀ item ∈ items, item.Ignores change) (conf : Config) (settings : Settings) :
    followItems conf (change settings) items =
      (followItems conf settings items).map change id := by
  induction items generalizing settings with
  | nil => rfl
  | cons item items ih =>
      rw [List.forall_mem_cons] at ignored
      rw [followItems, followItems, ignored.1 conf settings]
      cases item.effect conf settings with
      | inl next => exact ih ignored.2 next
      | inr report => rfl

/-- Items are followed one part after the other. -/
theorem followItems_append (conf : Config) (settings : Settings) (first second : List Item) :
    followItems conf settings (first ++ second) =
      match followItems conf settings first with
      | .inl settings => followItems conf settings second
      | .inr report => .inr report := by
  induction first generalizing settings with
  | nil => rfl
  | cons item first ih =>
      rw [List.cons_append, followItems, followItems]
      cases item.effect conf settings with
      | inl next => exact ih next
      | inr report => rfl

/-- An item that only makes a change has the same effect behind the items that ignore it. -/
theorem followItems_insert {conf : Config} {change : Settings → Settings} {item : Item}
    (acts : ∀ settings, item.effect conf settings = .inl (change settings)) {after : List Item}
    (ignored : ∀ item ∈ after, item.Ignores change) (settings : Settings) (before : List Item) :
    followItems conf settings (before ++ item :: after) =
      (followItems conf settings (before ++ after)).map change id := by
  rw [followItems_append, followItems_append]
  cases followItems conf settings before with
  | inr report => rfl
  | inl next =>
      dsimp only
      rw [followItems, acts]
      exact followItems_change ignored conf next

/-- What holds of the first settings and is kept by every item holds of the last settings. -/
theorem followItems_invariant {conf : Config} (Inv : List Item → Settings → Prop)
    {start : Settings} (starts : Inv [] start)
    (kept : ∀ before item settings next, Inv before settings →
      item.effect conf settings = .inl next → Inv (before ++ [item]) next)
    {items : List Item} {settings : Settings}
    (followed : followItems conf start items = .inl settings) : Inv items settings := by
  induction items using List.reverseRecOn generalizing settings with
  | nil =>
      cases followed
      exact starts
  | append_singleton items item ih =>
      rw [followItems_append] at followed
      cases before : followItems conf start items with
      | inr report =>
          rw [before] at followed
          cases followed
      | inl middle =>
          rw [before] at followed
          dsimp only at followed
          rw [followItems] at followed
          cases effect : item.effect conf middle with
          | inr report =>
              rw [effect] at followed
              cases followed
          | inl next =>
              rw [effect] at followed
              cases followed
              exact kept items item middle settings (ih before) effect

/-- The option that an item stands for. -/
def Item.known? : Item → Option OptionName
  | option name _ => optionByName name
  | operand _ | missing _ => none

/-- Only these options change the value. -/
structure ChangedBy {Value : Type*} (value : Settings → Value) (changers : List OptionName) :
    Prop where
  operands : ∀ args settings, value (settings.withArgs args) = value settings
  others : ∀ conf settings option text, option ∉ changers →
    value (settings.update conf option text) = value settings

/-- Without the options that change it a value stays what it was. -/
theorem ChangedBy.follow {Value : Type*} {value : Settings → Value} {changers : List OptionName}
    (changed : ChangedBy value changers) {conf : Config} {start settings : Settings}
    {items : List Item} (followed : followItems conf start items = .inl settings)
    (without : ∀ item ∈ items, ∀ option ∈ changers, item.known? ≠ some option) :
    value settings = value start := by
  refine followItems_invariant (fun items settings =>
    (∀ item ∈ items, ∀ option ∈ changers, item.known? ≠ some option) →
      value settings = value start) (fun _ => rfl) ?_ followed without
  intro before item middle next inv effect without
  have early := inv fun other member => without other (List.mem_append_left _ member)
  have own := without item (by simp)
  cases item with
  | operand arg =>
      cases effect
      exact (changed.operands _ middle).trans early
  | missing name => cases effect
  | option name text =>
      rw [Item.effect] at effect
      cases found : optionByName name with
      | none =>
          rw [found] at effect
          cases effect
      | some known =>
          rw [found] at effect
          have other : known ∉ changers := fun member => own known member found
          rw [Settings.apply_update effect, changed.others conf middle known _ other]
          exact early

/-- The operands and the options all keep the property. -/
structure Sticky (Property : Settings → Prop) : Prop where
  operands : ∀ args settings, Property settings → Property (settings.withArgs args)
  options : ∀ conf settings option text, Property settings →
    Property (settings.update conf option text)

/-- A property that is kept by every item holds at the end. -/
theorem Sticky.follow {Property : Settings → Prop} (sticky : Sticky Property) {conf : Config}
    {start settings : Settings} {items : List Item} (starts : Property start)
    (followed : followItems conf start items = .inl settings) : Property settings := by
  refine followItems_invariant (fun _ settings => Property settings) starts ?_ followed
  intro before item middle next holds effect
  cases item with
  | operand arg =>
      cases effect
      exact sticky.operands _ middle holds
  | missing name => cases effect
  | option name text =>
      rw [Item.effect] at effect
      cases found : optionByName name with
      | none =>
          rw [found] at effect
          cases effect
      | some known =>
          rw [found] at effect
          rw [Settings.apply_update effect]
          exact sticky.options conf middle known _ holds

/-- Options ignore the operands. -/
theorem options_ignore (items : List Item) (args : List S8) :
    ∀ item ∈ options items, item.Ignores (Settings.withArgs args) := by
  intro item member
  exact Item.ignores_overlay (List.mem_filter.mp member).2 (fun _ => args) id rfl

/-- Only an operand changes the operands. -/
theorem Item.effect_args {item : Item} (isOption : item.isOption = true) {conf : Config}
    {settings next : Settings} (effect : item.effect conf settings = .inl next) :
    next.args = settings.args := by
  have ignored := ignores_overlay isOption (fun _ => settings.args) id rfl conf settings
  have unchanged : settings.overlay (fun _ => settings.args) id = settings := rfl
  rw [unchanged, effect] at ignored
  have same : next = next.overlay (fun _ => settings.args) id := Sum.inl.inj ignored
  rw [same]
  rfl

/-- The operands are collected as if all options came before them. -/
theorem followItems_split (conf : Config) (settings : Settings) (items : List Item) :
    followItems conf settings items =
      (followItems conf settings (options items)).map
        (Settings.withArgs (settings.args ++ operands items)) id := by
  induction items generalizing settings with
  | nil =>
      simp only [options, operands, List.filter_nil, List.filterMap_nil, List.append_nil]
      rfl
  | cons item items ih =>
      cases isOption : item.isOption with
      | true =>
          have noOperand : operands (item :: items) = operands items := by
            cases item with
            | operand arg => cases isOption
            | option name value | missing name => rfl
          have first : options (item :: items) = item :: options items :=
            List.filter_cons_of_pos isOption
          rw [noOperand, first, followItems, followItems]
          cases effect : item.effect conf settings with
          | inr report => rfl
          | inl next =>
              dsimp only
              rw [ih next, Item.effect_args isOption effect]
      | false =>
          cases item with
          | option name value | missing name => cases isOption
          | operand arg =>
              have step : followItems conf settings (.operand arg :: items) =
                  followItems conf (settings.withArgs (settings.args ++ [arg])) items := rfl
              have same : (settings.withArgs (settings.args ++ [arg])).args ++ operands items =
                  settings.args ++ operands (.operand arg :: items) := by
                simp [Settings.withArgs, operands, Item.operand?]
              rw [step, ih, same, followItems_change (options_ignore items _)]
              change _ = (followItems conf settings (options items)).map _ id
              cases followItems conf settings (options items) <;> rfl

end UConfig
