import ChainExtract.Program.Evaluate
import ChainExtract.Proofs.Dispatch
import ChainExtract.Proofs.Journal
import ChainExtract.Proofs.Typing.Conformance

/-! # The standard library

No call of a method of the standard library is ambiguous: of two methods that could take the same
arguments, one takes arguments of just its own types. A method that is called with arguments of
its types returns a value of the type that it declares. It has none only for a divisor of zero and
for a radix without digits, and where what it reads cannot be had from the chain.
-/

namespace ChainExtract

variable {σ : Type}

namespace ValueType

/-- Whether there are types that both accept. -/
def meets : (first second : ValueType) → Bool
  | any, _ | _, any => true
  | list first, list second => meets first second
  | bool, bool | int, int | string, string | bytes, bytes | address, address => true
  | _, _ => false

/-- Whether the type accepts only itself. -/
def isRigid : ValueType → Bool
  | any => false
  | list element => element.isRigid
  | _ => true

theorem eq_of_isRigid {expected actual : ValueType} (hrigid : expected.isRigid = true)
    (haccepts : expected.accepts actual = true) : actual = expected := by
  induction expected generalizing actual with
  | any => cases hrigid
  | list element ih =>
      cases actual with
      | list other => rw [ih hrigid haccepts]
      | _ => cases haccepts
  | _ => cases actual <;> first | rfl | cases haccepts

theorem meets_of_accepts {first second actual : ValueType} (hfirst : first.accepts actual = true)
    (hsecond : second.accepts actual = true) : first.meets second = true := by
  induction first generalizing second actual with
  | any => cases second <;> rfl
  | list element ih =>
      cases actual with
      | list found =>
          cases second with
          | list other => exact ih hfirst hsecond
          | any => rfl
          | _ => cases hsecond
      | _ => cases hfirst
  | _ =>
      obtain rfl := eq_of_isRigid rfl hfirst
      cases second <;> first | rfl | cases hsecond

end ValueType

namespace Signature

/-- Whether there are calls that both accept. -/
def meets (first second : Signature) : Bool :=
  first.name == second.name
    && first.parameters.length == second.parameters.length
    && (first.parameters.zip second.parameters).all fun (one, other) => one.meets other

/-- Whether the signature accepts no call but its own. -/
def isRigid (signature : Signature) : Bool := signature.parameters.all ValueType.isRigid

theorem meets_of_accepts {first second call : Signature} (hfirst : first.accepts call = true)
    (hsecond : second.accepts call = true) : first.meets second = true := by
  obtain ⟨hname, hparameters⟩ := accepts_iff.mp hfirst
  obtain ⟨hother, hothers⟩ := accepts_iff.mp hsecond
  have hmeet : List.Forall₂ (fun one other : ValueType => one.meets other = true)
      first.parameters second.parameters := by
    refine forall₂_trans ?_ hparameters hothers.flip
    exact fun _ _ _ => ValueType.meets_of_accepts
  simpa [meets, hname, hother, and_assoc] using List.forall₂_iff_zip.mp hmeet

theorem eq_of_isRigid {signature call : Signature} (hrigid : signature.isRigid = true)
    (haccepts : signature.accepts call = true) : call = signature := by
  obtain ⟨hname, hparameters⟩ := accepts_iff.mp haccepts
  have hsame : signature.parameters = call.parameters := by
    have hboth := (List.forall₂_and_left _ _).mpr ⟨List.all_eq_true.mp hrigid, hparameters⟩
    rw [← List.forall₂_eq_eq_eq]
    exact hboth.imp fun _ _ h => (ValueType.eq_of_isRigid h.1 h.2).symm
  cases signature
  cases call
  congr 1
  · exact hname.symm
  · exact hsame.symm

end Signature

namespace Library

/-- Of two methods that could both accept a call, one accepts no call but its own. -/
def Separates (library : Library) : Prop :=
  ∀ first ∈ library.methods, ∀ second ∈ library.methods, first.signature ≠ second.signature →
    first.signature.meets second.signature = true →
      first.signature.isRigid = true ∨ second.signature.isRigid = true

instance (library : Library) : Decidable library.Separates := by
  unfold Separates
  infer_instance

/-- No call fails because several methods accept it. -/
def Unambiguous (library : Library) : Prop :=
  ∀ call reported candidates, library.resolve call ≠ .error (.ambiguousMethod reported candidates)

theorem Separates.unambiguous {library : Library} (hseparates : library.Separates)
    (hnodup : (library.methods.map (·.signature)).Nodup) : library.Unambiguous := by
  intro call reported signatures hambiguous
  have hresolves := resolves_resolve hnodup call
  rw [hambiguous] at hresolves
  rcases hresolves with _ | _ | _ | ⟨hinexact, hcandidates, hdistinct, hseveral⟩
  obtain ⟨first, hfirst, second, hsecond, hdiffer⟩ := exists_two_signatures hdistinct hseveral
  obtain ⟨hmethod, haccepts⟩ := (hcandidates first).mp hfirst
  obtain ⟨hother, haccepts'⟩ := (hcandidates second).mp hsecond
  rcases hseparates first hmethod second hother hdiffer
    (Signature.meets_of_accepts haccepts haccepts') with hrigid | hrigid
  · exact hinexact first hmethod (Signature.eq_of_isRigid hrigid haccepts).symm
  · exact hinexact second hother (Signature.eq_of_isRigid hrigid haccepts').symm

theorem unambiguous_standard : standard.Unambiguous := by
  apply Separates.unambiguous
  · decide +kernel
  · decide +kernel

end Library

namespace Value

variable {values : List Value} {first second : ValueType}

theorem exists_single (hvalues : List.Forall₂ Conforms values [first]) :
    ∃ value, values = [value] ∧ value.Conforms first := by
  rcases hvalues with _ | ⟨hvalue, _ | _⟩
  exact ⟨_, rfl, hvalue⟩

theorem exists_pair (hvalues : List.Forall₂ Conforms values [first, second]) :
    ∃ one other, values = [one, other] ∧ one.Conforms first ∧ other.Conforms second := by
  rcases hvalues with _ | ⟨hone, _ | ⟨hother, _ | _⟩⟩
  exact ⟨_, _, rfl, hone, hother⟩

theorem exists_integers (hvalues : List.Forall₂ Conforms values [.int, .int]) :
    ∃ one other, values = [.int one, .int other] := by
  obtain ⟨_, _, rfl, hone, hother⟩ := exists_pair hvalues
  obtain ⟨one, rfl⟩ := conforms_int.mp hone
  obtain ⟨other, rfl⟩ := conforms_int.mp hother
  exact ⟨one, other, rfl⟩

theorem exists_truths (hvalues : List.Forall₂ Conforms values [.bool, .bool]) :
    ∃ one other, values = [.bool one, .bool other] := by
  obtain ⟨_, _, rfl, hone, hother⟩ := exists_pair hvalues
  obtain ⟨one, rfl⟩ := conforms_bool.mp hone
  obtain ⟨other, rfl⟩ := conforms_bool.mp hother
  exact ⟨one, other, rfl⟩

theorem exists_texts {items : List Value} (hitems : ∀ item ∈ items, item.Conforms .string) :
    ∃ texts : List String, items = texts.map .str := by
  induction items with
  | nil => exact ⟨[], rfl⟩
  | cons item items ih =>
      obtain ⟨hitem, hrest⟩ := List.forall_mem_cons.mp hitems
      obtain ⟨text, rfl⟩ := conforms_string.mp hitem
      obtain ⟨texts, rfl⟩ := ih hrest
      exact ⟨text :: texts, rfl⟩

end Value

namespace Arguments

variable (method : String)

theorem divisor_eq_ok (dividend : Int) {value : Int} (hvalue : value ≠ 0) :
    divisor ⟨method, [.int dividend, .int value]⟩ 1 = .ok value := if_neg hvalue

theorem radix_eq_ok (number : Int) {value : Int} (hvalue : 2 ≤ value ∧ value ≤ 36) :
    radix ⟨method, [.int number, .int value]⟩ 1 = .ok value.toNat := if_pos hvalue

theorem radix_eq_error (number : Int) {value : Int} (hvalue : ¬(2 ≤ value ∧ value ≤ 36)) :
    radix ⟨method, [.int number, .int value]⟩ 1 =
      .error (.invalidParameters method "radix must be in 2..=36") := if_neg hvalue

/-- A list of texts at the end of the arguments. -/
theorem strings_map_str (first second third : Value) (texts : List String) :
    strings ⟨method, [first, second, third, .list (texts.map .str)]⟩ 3 = .ok texts := by
  show (texts.map Value.str).mapM _ = Except.ok texts
  rw [List.mapM_map]
  exact List.mapM_pure.trans (congrArg Except.ok (List.map_id texts))

end Arguments

namespace Builtin

/-- An operation without a result for arguments of its types, and the failure that says so. -/
inductive Undefined : Builtin → List Value → Error → Prop
  | divide (dividend : Int) :
      Undefined .divide [.int dividend, .int 0] (.invalidParameters "divide" "division by zero")
  | mod (dividend : Int) :
      Undefined .mod [.int dividend, .int 0] (.invalidParameters "mod" "division by zero")
  | radix (number : Int) {radix : Int} (hradix : ¬(2 ≤ radix ∧ radix ≤ 36)) :
      Undefined .toStringRadix [.int number, .int radix]
        (.invalidParameters "toString" "radix must be in 2..=36")

variable {operation : Builtin} {values : List Value} {error : Error}

theorem Undefined.apply_eq (hundefined : operation.Undefined values error) :
    operation.apply values = .error error := by
  cases hundefined with
  | divide | mod => rfl
  | radix number hradix =>
      exact congrArg (· >>= _) (Arguments.radix_eq_error (name .toStringRadix) number hradix)

/-- Each operation has a result for arguments of its types, unless it is undefined for them. -/
theorem exists_result_or_undefined
    (hvalues : List.Forall₂ Value.Conforms values operation.parameters) :
    (∃ value, operation.apply values = .ok value) ∨ ∃ error, operation.Undefined values error := by
  cases operation with
  | add | subtract | multiply | lessThan | greaterThan =>
      obtain ⟨one, other, rfl⟩ := Value.exists_integers hvalues
      exact Or.inl ⟨_, rfl⟩
  | divide =>
      obtain ⟨dividend, divisor, rfl⟩ := Value.exists_integers hvalues
      rcases eq_or_ne divisor 0 with rfl | hdivisor
      · exact Or.inr ⟨_, .divide dividend⟩
      · have hfound := Arguments.divisor_eq_ok (name .divide) dividend hdivisor
        exact Or.inl ⟨.int (dividend.tdiv divisor), congrArg (· >>= _) hfound⟩
  | mod =>
      obtain ⟨dividend, divisor, rfl⟩ := Value.exists_integers hvalues
      rcases eq_or_ne divisor 0 with rfl | hdivisor
      · exact Or.inr ⟨_, .mod dividend⟩
      · have hfound := Arguments.divisor_eq_ok (name .mod) dividend hdivisor
        exact Or.inl ⟨.int (dividend.tmod divisor), congrArg (· >>= _) hfound⟩
  | toStringRadix =>
      obtain ⟨number, radix, rfl⟩ := Value.exists_integers hvalues
      by_cases hradix : 2 ≤ radix ∧ radix ≤ 36
      · have hfound := Arguments.radix_eq_ok (name .toStringRadix) number hradix
        exact Or.inl ⟨.str (Numeral.text radix.toNat number ""), congrArg (· >>= _) hfound⟩
      · exact Or.inr ⟨_, .radix number hradix⟩
  | equals =>
      obtain ⟨one, other, rfl, _⟩ := Value.exists_pair hvalues
      exact Or.inl ⟨_, rfl⟩
  | and | or =>
      obtain ⟨one, other, rfl⟩ := Value.exists_truths hvalues
      cases one <;> exact Or.inl ⟨_, rfl⟩
  | not =>
      obtain ⟨_, rfl, hvalue⟩ := Value.exists_single hvalues
      obtain ⟨truth, rfl⟩ := Value.conforms_bool.mp hvalue
      exact Or.inl ⟨_, rfl⟩
  | concat =>
      obtain ⟨_, _, rfl, hone, hother⟩ := Value.exists_pair hvalues
      obtain ⟨one, rfl⟩ := Value.conforms_string.mp hone
      obtain ⟨other, rfl⟩ := Value.conforms_string.mp hother
      exact Or.inl ⟨_, rfl⟩
  | toString =>
      obtain ⟨value, rfl, _⟩ := Value.exists_single hvalues
      exact Or.inl ⟨_, rfl⟩
  | toHex =>
      obtain ⟨_, rfl, hvalue⟩ := Value.exists_single hvalues
      obtain ⟨number, rfl⟩ := Value.conforms_int.mp hvalue
      exact Or.inl ⟨_, rfl⟩
  | toStringBytes | lengthBytes =>
      obtain ⟨_, rfl, hvalue⟩ := Value.exists_single hvalues
      obtain ⟨bytes, rfl⟩ := Value.conforms_bytes.mp hvalue
      exact Or.inl ⟨_, rfl⟩
  | lengthString =>
      obtain ⟨_, rfl, hvalue⟩ := Value.exists_single hvalues
      obtain ⟨text, rfl⟩ := Value.conforms_string.mp hvalue
      exact Or.inl ⟨_, rfl⟩
  | lengthList =>
      obtain ⟨_, rfl, hvalue⟩ := Value.exists_single hvalues
      obtain ⟨items, rfl, _⟩ := Value.exists_items_of_conforms hvalue
      exact Or.inl ⟨_, rfl⟩
  | contains =>
      obtain ⟨_, needle, rfl, hlist, _⟩ := Value.exists_pair hvalues
      obtain ⟨items, rfl, _⟩ := Value.exists_items_of_conforms hlist
      exact Or.inl ⟨_, rfl⟩

/-- The failures of an operation on arguments of its types. -/
theorem apply_eq_error_iff (hvalues : List.Forall₂ Value.Conforms values operation.parameters) :
    operation.apply values = .error error ↔ operation.Undefined values error := by
  refine ⟨fun hfailed => ?_, Undefined.apply_eq⟩
  rcases exists_result_or_undefined hvalues with ⟨value, hresult⟩ | ⟨other, hundefined⟩
  · rw [hresult] at hfailed
    cases hfailed
  · rw [hundefined.apply_eq] at hfailed
    cases hfailed
    exact hundefined

theorem isShown_returns (operation : Builtin) : operation.returns.IsShown := by
  cases operation <;> trivial

end Builtin

namespace Method

/-- Arguments that a method takes are of the types of its parameters. -/
theorem conforms_of_validate {method : Method} {values : List Value}
    (hvalid : method.validate values = .ok ()) :
    List.Forall₂ Value.Conforms values method.signature.parameters := by
  apply List.Forall₂.flip
  apply (validate_eq_ok_iff.mp hvalid).imp
  exact fun _ value haccepts => value.conforms_type.of_accepts haccepts

/-- The arguments of a read of public state. -/
def readArguments (contract : Address) (member : String) (inputs : List Value)
    (types : List String) : List Value :=
  [.addr contract, .str member, .list inputs, .list (types.map .str)]

theorem run_readState (contract : Address) (member : String) (inputs : List Value)
    (types : List String) (settings : Settings σ) (state : RunState σ) :
    (readState (readArguments contract member inputs types)).run settings state =
      match state.cursor.block with
      | none => .failed (.unsetCursor "readContract" .block) state
      | some block =>
        (Value.list <$> Run.query ⟨contract, block.number, member, inputs, types⟩).run settings
          state := by
  unfold readState
  generalize hargs : Arguments.mk "readContract" (readArguments contract member inputs types) = args
  have hcontract : args.addr 0 = .ok contract := hargs ▸ rfl
  have hmember : args.str 1 = .ok member := hargs ▸ rfl
  have hinputs : args.list 2 = .ok inputs := hargs ▸ rfl
  have htypes : args.strings 3 = .ok types := hargs ▸ Arguments.strings_map_str _ _ _ _ types
  have hmethod : args.method = "readContract" := hargs ▸ rfl
  cases hblock : state.cursor.block <;>
    simp [hcontract, hmember, hinputs, htypes, hmethod, hblock]

/-- What a read of public state takes. -/
theorem exists_readArguments {values : List Value}
    (hvalues : List.Forall₂ Value.Conforms values readContract.signature.parameters) :
    ∃ contract member inputs types, values = readArguments contract member inputs types := by
  rcases hvalues with _ | ⟨hcontract, _ | ⟨hmember, _ | ⟨hinputs, _ | ⟨htypes, _ | _⟩⟩⟩⟩
  obtain ⟨contract, rfl⟩ := Value.conforms_address.mp hcontract
  obtain ⟨member, rfl⟩ := Value.conforms_string.mp hmember
  obtain ⟨inputs, rfl, _⟩ := Value.exists_items_of_conforms hinputs
  obtain ⟨items, rfl, hitems⟩ := Value.exists_items_of_conforms htypes
  obtain ⟨types, rfl⟩ := Value.exists_texts hitems
  exact ⟨contract, member, inputs, types, rfl⟩

/-- The words in which it is told that a read was not answered. -/
def readWords (contract : Address) (member : String) (block : Block) : String :=
  s!"could not query '{member}' of {contract.checksumText} at block {Numeral.decimal block.number}"

/-- A call without a result, although the method takes the arguments, and the failure that says
so. -/
inductive Declines (settings : Settings σ) (state : RunState σ) :
    Method → List Value → Error → Prop
  | undefined {operation : Builtin} {values : List Value} {error : Error}
      (hundefined : operation.Undefined values error) :
      Declines settings state (.ofBuiltin operation) values error
  /-- No block is being visited. -/
  | unset {values : List Value} (hblock : state.cursor.block = none) :
      Declines settings state .readContract values (.unsetCursor "readContract" .block)
  /-- The connection to the chain has been closed. -/
  | closed {values : List Value} (hblock : state.cursor.block ≠ none)
      (hclosed : state.closed = true) : Declines settings state .readContract values .readerClosed
  /-- The chain does not answer. -/
  | refused {block : Block} {contract : Address} {member : String} {inputs : List Value}
      {types : List String} {failure : Failure} (hblock : state.cursor.block = some block)
      (hopen : state.closed = false)
      (hanswer : (settings.client.member ⟨contract, block.number, member, inputs, types⟩
        state.chain).1 = .error failure) :
      Declines settings state .readContract (readArguments contract member inputs types)
        (.query (readWords contract member block) failure.texts)

/-- How a call of the method with the arguments ends: with a value of the type that the method
declares, unless there is a failure for it. -/
def Answers (method : Method) (settings : Settings σ) (state : RunState σ)
    (arguments : List Value) : Outcome σ Value → Prop
  | .ok value _ => method.returns.accepts value.type = true ∧
      ∀ error, ¬ Declines settings state method arguments error
  | .failed error _ => Declines settings state method arguments error
  | .unfinished => False

variable {settings : Settings σ} {state : RunState σ}

theorem run_invoke_of_validate {method : Method} {arguments : List Value}
    (hvalid : method.validate arguments = .ok ()) :
    (method.invoke arguments).run settings state =
      (method.perform arguments).run settings state := by
  rw [invoke, hvalid]
  rfl

theorem Declines.undefined_of_builtin {operation : Builtin} {arguments : List Value} {error : Error}
    (hdeclines : Declines settings state (ofBuiltin operation) arguments error) :
    operation.Undefined arguments error := by
  generalize hmethod : ofBuiltin operation = method at hdeclines
  rcases hdeclines with hundefined | _ | _ | _
  · cases congrArg Method.behaviour hmethod
    exact hundefined
  all_goals cases congrArg Method.behaviour hmethod

theorem readArguments_inj {contract other : Address} {member otherMember : String}
    {inputs otherInputs : List Value} {types otherTypes : List String}
    (hsame : readArguments contract member inputs types =
      readArguments other otherMember otherInputs otherTypes) :
    contract = other ∧ member = otherMember ∧ inputs = otherInputs ∧ types = otherTypes := by
  have hstr : Function.Injective Value.str := fun _ _ => Value.str.inj
  simpa [readArguments, hstr.list_map.eq_iff] using hsame

/-- A read has a failure if and only if no block is being visited, or the connection has been
closed, or the chain does not answer. -/
theorem Declines.cases_read {contract : Address} {member : String} {inputs : List Value}
    {types : List String} {error : Error}
    (hdeclines : Declines settings state readContract
      (readArguments contract member inputs types) error) :
    state.cursor.block = none ∨ state.closed = true ∨
      ∃ block failure, state.cursor.block = some block ∧
        (settings.client.member ⟨contract, block.number, member, inputs, types⟩ state.chain).1 =
          .error failure := by
  generalize hmethod : readContract = method at hdeclines
  generalize harguments : readArguments contract member inputs types = arguments at hdeclines
  rcases hdeclines with _ | hblock | ⟨_, hclosed⟩ | ⟨hblock, _, hanswer⟩
  · cases congrArg Method.behaviour hmethod
  · exact Or.inl hblock
  · exact Or.inr (Or.inl hclosed)
  · obtain ⟨rfl, rfl, rfl, rfl⟩ := readArguments_inj harguments
    exact Or.inr (Or.inr ⟨_, _, hblock, hanswer⟩)

theorem answers_ofBuiltin (operation : Builtin) {arguments : List Value}
    (harguments : List.Forall₂ Value.Conforms arguments operation.parameters) :
    (ofBuiltin operation).Answers settings state arguments
      (((ofBuiltin operation).perform arguments).run settings state) := by
  show Answers _ _ _ _ ((Run.ofExcept (operation.apply arguments)).run settings state)
  cases happly : operation.apply arguments with
  | ok value =>
      have hyields := operation.yields_apply arguments value happly
      refine ⟨operation.isShown_returns.accepts hyields, ?_⟩
      intro error hdeclined
      rw [hdeclined.undefined_of_builtin.apply_eq] at happly
      cases happly
  | error error => exact .undefined ((Builtin.apply_eq_error_iff harguments).mp happly)

theorem answers_readContract {arguments : List Value}
    (harguments : List.Forall₂ Value.Conforms arguments readContract.signature.parameters) :
    readContract.Answers settings state arguments
      ((readContract.perform arguments).run settings state) := by
  obtain ⟨contract, member, inputs, types, rfl⟩ := exists_readArguments harguments
  show Answers _ _ _ _ ((readState (readArguments contract member inputs types)).run settings state)
  rw [run_readState]
  cases hblock : state.cursor.block with
  | none => exact .unset hblock
  | some block =>
      simp only [Run.run_map, Run.query, Run.run_request]
      cases hclosed : state.closed with
      | true => exact .closed (by simp [hblock]) hclosed
      | false =>
          rcases hanswer : settings.client.member ⟨contract, block.number, member, inputs, types⟩
            state.chain with ⟨failure | values, chain⟩
          · exact .refused hblock hclosed (congrArg Prod.fst hanswer)
          · refine ⟨rfl, fun error hdeclines => ?_⟩
            rcases hdeclines.cases_read with hnone | hdown | ⟨_, _, hsome, hrefused⟩
            · cases hnone.symm.trans hblock
            · cases hdown.symm.trans hclosed
            · cases hsome.symm.trans hblock
              cases hrefused.symm.trans (congrArg Prod.fst hanswer)

end Method

namespace Library

/-- No call of a method of the standard library is ambiguous. Called with arguments that it takes,
a method ends with a value of the type that it declares, unless a divisor is zero, a radix has no
digits of its own, or a read of public state cannot be answered. -/
theorem honest_standard :
    standard.Unambiguous ∧
      ∀ method ∈ standard.methods, ∀ arguments, method.validate arguments = .ok () →
        ∀ {σ : Type} (settings : Settings σ) (state : RunState σ),
          method.Answers settings state arguments
            ((method.invoke arguments).run settings state) := by
  refine ⟨unambiguous_standard, fun method hmethod arguments hvalid σ settings state => ?_⟩
  have harguments := Method.conforms_of_validate hvalid
  rw [Method.run_invoke_of_validate hvalid]
  rcases List.mem_append.mp hmethod with hbuiltin | hread
  · obtain ⟨operation, _, rfl⟩ := List.mem_map.mp hbuiltin
    exact Method.answers_ofBuiltin operation harguments
  · obtain rfl := List.mem_singleton.mp hread
    exact Method.answers_readContract harguments

/-- A chain whose contracts answer as of block 42 only. -/
def readingSettings : Settings Unit where
  client :=
    { head := fun chain => (.ok 42, chain)
      block := fun _ chain => (.error ⟨"no such block", []⟩, chain)
      member := fun query chain =>
        (if query.atBlock = 42 then .ok [.int 1, .str "a"] else .error ⟨"no such state", []⟩,
          chain) }
  abortOnFailure := false
  patience := 1
  stamp := ""

def readingBlock : Block where
  number := 42
  hash := .zero 32
  parentHash := .zero 32
  timestamp := 0
  miner := .zero 20
  gasUsed := 0
  gasLimit := 0
  difficulty := 0
  extraData := []
  transactions := []

def readingStart : RunState Unit :=
  { chain := (), cursor := .atBlock readingBlock, folder := { path := "" } }

/-- A division by zero, and a read that is answered with values of two types. -/
theorem honest_standard_reading :
    .ofBuiltin .divide ∈ standard.methods ∧ .readContract ∈ standard.methods ∧
      (Method.ofBuiltin .divide).validate [.int 7, .int 0] = .ok () ∧
      Method.readContract.validate
        (Method.readArguments (.zero 20) "pair" [] ["uint256", "string"]) = .ok () ∧
      (Method.ofBuiltin .divide).Answers readingSettings readingStart [.int 7, .int 0]
        (.failed (.invalidParameters "divide" "division by zero") readingStart) ∧
      (ValueType.list .any).accepts (Value.list [.int 1, .str "a"]).type = true := by
  have hdivide : .ofBuiltin .divide ∈ standard.methods := by decide
  have hread : .readContract ∈ standard.methods := by decide
  obtain ⟨hreturns, _⟩ :=
    honest_standard.2 _ hread (Method.readArguments (.zero 20) "pair" [] ["uint256", "string"]) rfl
      readingSettings readingStart
  exact ⟨hdivide, hread, rfl, rfl,
    honest_standard.2 _ hdivide [.int 7, .int 0] rfl readingSettings readingStart, hreturns⟩

end Library

end ChainExtract
