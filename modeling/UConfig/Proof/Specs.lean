/-
This file gives the grammar of package specifications and proves that the parser decides it.
-/

import UConfig.Program.Package

namespace UConfig

/-- The tokens of an argument are its maximal runs of bytes that are no token space. -/
def argTokens (arg : S8) : List S8 := (arg.splitOnP tokenSpace).filter (· ≠ [])

def operators : List S8 := [S "<", S "<=", S "=", S ">=", S ">"]

/-- Everything but an operator is an error. -/
theorem parseOp_eq_err_iff {tok : S8} : parseOp tok = .err ↔ tok ∉ operators := by
  unfold parseOp operators
  split_ifs <;> simp_all

/-- A name is any token that is not an operator. -/
structure SpecName where
  text : S8
  notOperator : text ∉ operators

structure Operator where
  text : S8
  isOperator : text ∈ operators

/-- The version of an item may be any token. -/
inductive SpecItem where
  | plain (name : SpecName)
  | versioned (name : SpecName) (op : Operator) (version : S8)

namespace SpecItem

def tokens : SpecItem → List S8
  | plain name => [name.text]
  | versioned name op version => [name.text, op.text, version]

def spec : SpecItem → PkgSpec
  | plain name => ⟨name.text, .err, none⟩
  | versioned name op version => ⟨name.text, parseOp op.text, some version⟩

def isVersioned : SpecItem → Bool
  | plain _ => false
  | versioned _ _ _ => true

end SpecItem

/-- Spaces and commas before a token do not matter. -/
theorem argTokens_space {c : UInt8} (space : tokenSpace c = true) (s : S8) :
    argTokens (c :: s) = argTokens s := by
  rw [argTokens, List.splitOnP_cons_eq_if_modifyHead, if_pos space]
  rfl

/-- So they may all be skipped. -/
theorem argTokens_skip (s : S8) : argTokens (skipTokenSpace s) = argTokens s := by
  induction s with
  | nil => rfl
  | cons c s ih =>
      by_cases space : tokenSpace c = true
      · rw [skipTokenSpace, List.dropWhile_cons_of_pos space, argTokens_space space]
        exact ih
      · rw [skipTokenSpace, List.dropWhile_cons_of_neg space]

/-- The parser takes the first token of an argument and goes on with the others. -/
theorem argTokens_next (s : S8) : argTokens s =
    if (nextToken s).head = [] then [] else (nextToken s).head :: argTokens (nextToken s).tail := by
  have word : ∀ c ∈ (nextToken s).head, tokenSpace c = false := by
    intro c member
    simpa using List.mem_takeWhile_imp member
  have parts : (nextToken s).head ++ (nextToken s).tail = skipTokenSpace s :=
    List.takeWhile_append_dropWhile
  rw [← argTokens_skip, ← parts]
  cases behind : (nextToken s).tail with
  | nil =>
      rw [List.append_nil, argTokens, List.splitOnP_eq_singleton word]
      split
      case isTrue empty => rw [empty]; rfl
      case isFalse nonempty => simp [nonempty, argTokens]
  | cons c rest =>
      have space : tokenSpace c = true := by simpa using stops_of_dropWhile behind
      have nonempty : (nextToken s).head ≠ [] := by
        intro empty
        rw [empty, behind] at parts
        rw [stops_of_dropWhile parts.symm] at space
        cases space
      rw [if_neg nonempty, argTokens_space space, argTokens,
        List.splitOnP_append_cons_of_forall_mem word c space, List.filter_cons_of_pos (by simpa)]
      rfl

/-- The parser reads the tokens of an argument one after the other. -/
theorem parseSpecsArg_tokens (p : Option S8) (specs : SpecList) (arg : S8) :
    parseSpecsArg p specs arg = (argTokens arg).foldlM (parseSpecsToken p) specs := by
  fun_induction parseSpecsArg p specs arg with
  | case1 specs arg empty =>
      rw [argTokens_next, if_pos empty]
      rfl
  | case2 specs arg nonempty ih =>
      rw [argTokens_next, if_neg nonempty, List.foldlM_cons]
      exact congrArg _ (funext ih)

/-- What the parser returns for the tokens of all arguments. -/
def parseTokens (toks : List S8) (p : Option S8) : Except Stop (List PkgSpec) := do
  let specs ← toks.foldlM (parseSpecsToken p) ⟨none, []⟩
  match specs.pkg with
  | some pkg =>
      if pkg.op ≠ .err ∧ pkg.version = none then
        .error (.fail (.expectedVersion pkg.op p))
      else .ok specs.head
  | none => .ok specs.head

/-- How the tokens are split over the arguments does not matter. -/
theorem parseSpecs_tokens (args : List S8) (p : Option S8) :
    parseSpecs args p = parseTokens (args.flatMap argTokens) p := by
  have folded : ∀ specs, args.foldlM (parseSpecsArg p) specs =
      (args.flatMap argTokens).foldlM (parseSpecsToken p) specs := by
    induction args with
    | nil => exact fun _ => rfl
    | cons arg args ih =>
        intro specs
        rw [List.foldlM_cons, List.flatMap_cons, List.foldlM_append, parseSpecsArg_tokens]
        exact congrArg _ (funext ih)
  rw [parseSpecs, folded]
  rfl

/-- No operator and no version is missing in front of the next name. -/
def SpecList.Settled (specs : SpecList) : Prop :=
  ∀ pkg, specs.pkg = some pkg → pkg.op = .err

/-- A name is added in front of a settled list. -/
theorem parseName (p : Option S8) {specs : SpecList} (settled : specs.Settled) (name : SpecName) :
    parseSpecsToken p specs name.text = .ok ⟨some (newPkgSpec name.text), specs.head⟩ := by
  have notOp := parseOp_eq_err_iff.mpr name.notOperator
  rw [parseSpecsToken]
  cases pending : specs.pkg with
  | none =>
      simp only [checkNotOp, notOp, SpecList.head, pending]
      rfl
  | some pkg =>
      have same : { pkg with op := .err } = pkg := by
        rw [← settled pkg pending]
      simp only [settled pkg pending, notOp, SpecList.head, pending, if_pos, same]
      rfl

/-- An operator belongs to the name before it. -/
theorem parseOperator (p : Option S8) (name : S8) (rest : List PkgSpec) (op : Operator) :
    parseSpecsToken p ⟨some (newPkgSpec name), rest⟩ op.text =
      .ok ⟨some ⟨name, parseOp op.text, none⟩, rest⟩ := by
  have isOp : parseOp op.text ≠ .err := fun none => parseOp_eq_err_iff.mp none op.isOperator
  simp only [parseSpecsToken, newPkgSpec, if_pos, if_neg isOp]

/-- The token behind an operator is a version. -/
theorem parseVersion (p : Option S8) (name version : S8) (rest : List PkgSpec) (op : Operator) :
    parseSpecsToken p ⟨some ⟨name, parseOp op.text, none⟩, rest⟩ version =
      .ok ⟨none, ⟨name, parseOp op.text, some version⟩ :: rest⟩ := by
  have isOp : parseOp op.text ≠ .err := fun none => parseOp_eq_err_iff.mp none op.isOperator
  simp only [parseSpecsToken, if_neg isOp]

/-- An item is added in front of a settled list, and only a name without a version may still take
an operator. -/
theorem parseItem (p : Option S8) {specs : SpecList} (settled : specs.Settled) (item : SpecItem) :
    ∃ specs', item.tokens.foldlM (parseSpecsToken p) specs = .ok specs' ∧ specs'.Settled ∧
      specs'.head = item.spec :: specs.head ∧ (item.isVersioned = true → specs'.pkg = none) := by
  cases item with
  | plain name =>
      refine ⟨⟨some (newPkgSpec name.text), specs.head⟩, ?_, ?_, rfl, nofun⟩
      · rw [SpecItem.tokens, List.foldlM_cons, parseName p settled name]
        rfl
      · rintro pkg ⟨⟩
        rfl
  | versioned name op version =>
      refine ⟨⟨none, ⟨name.text, parseOp op.text, some version⟩ :: specs.head⟩, ?_, nofun, rfl,
        fun _ => rfl⟩
      rw [SpecItem.tokens, List.foldlM_cons, parseName p settled name]
      change [op.text, version].foldlM (parseSpecsToken p) _ = _
      rw [List.foldlM_cons, parseOperator]
      change [version].foldlM (parseSpecsToken p) _ = _
      rw [List.foldlM_cons, parseVersion]
      rfl

/-- Behind these items a name must come next. -/
def NameNext (items : List SpecItem) : Prop :=
  ∀ item, items.getLast? = some item → item.isVersioned = true

/-- The items are added one after the other, so that the last one comes first. -/
theorem parseItems (p : Option S8) (items : List SpecItem) :
    ∃ specs, (items.flatMap SpecItem.tokens).foldlM (parseSpecsToken p) ⟨none, []⟩ = .ok specs ∧
      specs.Settled ∧ specs.head = (items.map SpecItem.spec).reverse ∧
      (NameNext items → specs.pkg = none) := by
  induction items using List.reverseRecOn with
  | nil => exact ⟨⟨none, []⟩, rfl, nofun, rfl, fun _ => rfl⟩
  | append_singleton items item ih =>
      obtain ⟨specs, run, settled, head, _⟩ := ih
      obtain ⟨specs', run', settled', head', closed⟩ := parseItem p settled item
      refine ⟨specs', ?_, settled', ?_, fun next => closed (next item (by simp))⟩
      · rw [List.flatMap_append, List.foldlM_append, run, List.flatMap_singleton]
        exact run'
      · rw [head', head, List.map_append, List.reverse_append]
        rfl

/-- A list of tokens is a list of items, or a name and an operator are left at its end, or an
operator stands where a name must start. -/
inductive Shape (toks : List S8) : Prop where
  | items (items : List SpecItem) (whole : toks = items.flatMap SpecItem.tokens)
  | unfinished (items : List SpecItem) (name : SpecName) (op : Operator)
      (whole : toks = items.flatMap SpecItem.tokens ++ [name.text, op.text])
  | misplaced (items : List SpecItem) (op : Operator) (rest : List S8) (next : NameNext items)
      (whole : toks = items.flatMap SpecItem.tokens ++ op.text :: rest)

/-- The shape of the tokens behind an item decides the shape of all tokens. -/
theorem Shape.cons {toks : List S8} (shape : Shape toks) (item : SpecItem)
    (next : item.isVersioned = true ∨ ∀ op : Operator, toks.head? ≠ some op.text) :
    Shape (item.tokens ++ toks) := by
  cases shape with
  | items items whole => exact .items (item :: items) (by rw [whole]; rfl)
  | unfinished items name op whole =>
      exact .unfinished (item :: items) name op (by rw [whole, List.flatMap_cons, List.append_assoc])
  | misplaced items op rest nameNext whole =>
      refine .misplaced (item :: items) op rest ?_ (by rw [whole, List.flatMap_cons, List.append_assoc])
      cases items with
      | nil =>
          rintro last ⟨⟩
          exact next.resolve_right fun plain => plain op (by rw [whole]; rfl)
      | cons first items =>
          intro last isLast
          exact nameNext last (by rwa [List.getLast?_cons_cons] at isLast)

/-- Every list of tokens has a shape, which is found from the first token on. -/
theorem shape : ∀ toks : List S8, Shape toks
  | [] => .items [] rfl
  | first :: toks => by
      by_cases isOp : first ∈ operators
      · exact .misplaced [] ⟨first, isOp⟩ toks nofun rfl
      · match toks with
        | [] => exact .items [.plain ⟨first, isOp⟩] rfl
        | second :: rest =>
            by_cases secondOp : second ∈ operators
            · match rest with
              | [] => exact .unfinished [] ⟨first, isOp⟩ ⟨second, secondOp⟩ rfl
              | version :: rest =>
                  exact (shape rest).cons (.versioned ⟨first, isOp⟩ ⟨second, secondOp⟩ version)
                    (.inl rfl)
            · have plain : ∀ op : Operator, (second :: rest).head? ≠ some op.text := by
                intro op same
                exact secondOp (Option.some.inj same ▸ op.isOperator)
              exact (shape (second :: rest)).cons (.plain ⟨first, isOp⟩) (.inr plain)

/-- Items parse to their specifications, the last one first. -/
theorem parseTokens_items (items : List SpecItem) (p : Option S8) :
    parseTokens (items.flatMap SpecItem.tokens) p = .ok (items.map SpecItem.spec).reverse := by
  obtain ⟨specs, run, settled, head, _⟩ := parseItems p items
  rw [parseTokens, run, ← head]
  change (match specs.pkg with | some pkg => _ | none => _) = _
  cases pending : specs.pkg with
  | none => rfl
  | some pkg => exact if_neg fun missing => missing.1 (settled pkg pending)

/-- An operator at the end lacks its version. -/
theorem parseTokens_unfinished (items : List SpecItem) (name : SpecName) (op : Operator)
    (p : Option S8) : parseTokens (items.flatMap SpecItem.tokens ++ [name.text, op.text]) p =
      .error (.fail (.expectedVersion (parseOp op.text) p)) := by
  obtain ⟨specs, run, settled, _, _⟩ := parseItems p items
  have isOp : parseOp op.text ≠ .err := fun none => parseOp_eq_err_iff.mp none op.isOperator
  have last : [name.text, op.text].foldlM (parseSpecsToken p) specs =
      .ok ⟨some ⟨name.text, parseOp op.text, none⟩, specs.head⟩ := by
    rw [List.foldlM_cons, parseName p settled name]
    change [op.text].foldlM (parseSpecsToken p) _ = _
    rw [List.foldlM_cons, parseOperator]
    rfl
  rw [parseTokens, List.foldlM_append, run]
  change ([name.text, op.text].foldlM (parseSpecsToken p) specs >>= _) = _
  rw [last]
  exact if_pos ⟨isOp, rfl⟩

/-- An operator in the place of a name is unexpected. -/
theorem parseTokens_misplaced (items : List SpecItem) (op : Operator) (rest : List S8)
    (next : NameNext items) (p : Option S8) :
    parseTokens (items.flatMap SpecItem.tokens ++ op.text :: rest) p =
      .error (.fail (.unexpectedOperator op.text p)) := by
  obtain ⟨specs, run, _, _, closed⟩ := parseItems p items
  have isOp : parseOp op.text ≠ .err := fun none => parseOp_eq_err_iff.mp none op.isOperator
  have refused : parseSpecsToken p specs op.text =
      .error (.fail (.unexpectedOperator op.text p)) := by
    simp only [parseSpecsToken, closed next, checkNotOp, ne_eq, isOp, not_false_eq_true, if_pos]
    rfl
  rw [parseTokens, List.foldlM_append, run]
  change ((op.text :: rest).foldlM (parseSpecsToken p) specs >>= _) = _
  rw [List.foldlM_cons, refused]
  rfl

/-- The result of the parser says which shape the tokens have. -/
theorem parseTokens_outcome (toks : List S8) (p : Option S8) :
    match parseTokens toks p with
    | .ok specs => ∃ items : List SpecItem,
        toks = items.flatMap SpecItem.tokens ∧ specs = (items.map SpecItem.spec).reverse
    | .error (.fail (.unexpectedOperator tok q)) =>
        q = p ∧ ∃ (items : List SpecItem) (op : Operator) (rest : List S8), NameNext items ∧
          toks = items.flatMap SpecItem.tokens ++ op.text :: rest ∧ tok = op.text
    | .error (.fail (.expectedVersion op q)) =>
        q = p ∧ ∃ (items : List SpecItem) (name : SpecName) (last : Operator),
          toks = items.flatMap SpecItem.tokens ++ [name.text, last.text] ∧ op = parseOp last.text
    | .error _ => False := by
  cases shape toks with
  | items items whole =>
      rw [whole, parseTokens_items]
      exact ⟨items, rfl, rfl⟩
  | unfinished items name op whole =>
      rw [whole, parseTokens_unfinished]
      exact ⟨rfl, items, name, op, rfl, rfl⟩
  | misplaced items op rest next whole =>
      rw [whole, parseTokens_misplaced items op rest next]
      exact ⟨rfl, items, op, rest, next, rfl, rfl⟩

/-- The parser returns the items of the tokens from the last to the first exactly when the tokens
are a list of items.
Otherwise it reports the operator in the place of a name, or the operator that ends the tokens,
and how the tokens are split over the arguments does not matter. -/
theorem parseSpecs_grammar (args : List S8) (p : Option S8) :
    (∀ specs, parseSpecs args p = .ok specs ↔ ∃ items : List SpecItem,
      args.flatMap argTokens = items.flatMap SpecItem.tokens ∧
      specs = (items.map SpecItem.spec).reverse) ∧
    (∀ tok, parseSpecs args p = .error (.fail (.unexpectedOperator tok p)) ↔
      ∃ (items : List SpecItem) (op : Operator) (rest : List S8), NameNext items ∧
        args.flatMap argTokens = items.flatMap SpecItem.tokens ++ op.text :: rest ∧
        tok = op.text) ∧
    (∀ op, parseSpecs args p = .error (.fail (.expectedVersion op p)) ↔
      ∃ (items : List SpecItem) (name : SpecName) (last : Operator),
        args.flatMap argTokens = items.flatMap SpecItem.tokens ++ [name.text, last.text] ∧
        op = parseOp last.text) ∧
    (∀ stop, parseSpecs args p = .error stop →
      (∃ tok, stop = .fail (.unexpectedOperator tok p)) ∨
        ∃ op, stop = .fail (.expectedVersion op p)) ∧
    ∀ others : List S8, others.flatMap argTokens = args.flatMap argTokens →
      parseSpecs others p = parseSpecs args p := by
  have split : ∀ others : List S8, others.flatMap argTokens = args.flatMap argTokens →
      parseSpecs others p = parseSpecs args p := by
    intro others same
    rw [parseSpecs_tokens, parseSpecs_tokens, same]
  have outcome := parseTokens_outcome (args.flatMap argTokens) p
  rw [parseSpecs_tokens] at split ⊢
  generalize args.flatMap argTokens = toks at split outcome ⊢
  refine ⟨?_, ?_, ?_, ?_, split⟩
  · intro specs
    constructor
    · intro parsed
      rw [parsed] at outcome
      exact outcome
    · rintro ⟨items, whole, rfl⟩
      rw [whole, parseTokens_items]
  · intro tok
    constructor
    · intro parsed
      rw [parsed] at outcome
      exact outcome.2
    · rintro ⟨items, op, rest, next, whole, rfl⟩
      rw [whole, parseTokens_misplaced items op rest next]
  · intro op
    constructor
    · intro parsed
      rw [parsed] at outcome
      exact outcome.2
    · rintro ⟨items, name, last, whole, rfl⟩
      rw [whole, parseTokens_unfinished]
  · intro stop parsed
    rw [parsed] at outcome
    split at outcome
    case h_1 returned => cases returned
    case h_2 stopped =>
      cases stopped
      exact .inl ⟨_, by rw [outcome.1]⟩
    case h_3 stopped =>
      cases stopped
      exact .inr ⟨_, by rw [outcome.1]⟩
    case h_4 => exact outcome.elim

end UConfig
