import ChainExtract.Proofs.Dispatch
import ChainExtract.Proofs.Typing.Soundness

/-! # Calls

A method that the compilation has found for the types of the arguments is called with values of
these types. It takes them all but for one case: the empty list has no element to show that it
is a list of strings, so `readContract` refuses it as the list of output types.
-/

namespace ChainExtract

variable {σ : Type}

theorem Value.type_strings {items : List Value} (hitems : ∀ item ∈ items, item.Conforms .string)
    (hsome : items ≠ []) : (Value.list items).type = .list .string := by
  have htypes : ∀ item ∈ items, item.type = .string := by
    intro item hitem
    have hstring := hitems item hitem
    cases item <;> first | rfl | exact hstring.elim
  obtain ⟨first, rest, rfl⟩ := List.exists_cons_of_ne_nil hsome
  obtain ⟨hfirst, hrest⟩ := List.forall_mem_cons.mp htypes
  rw [Value.type, Value.types_eq_map, List.map_cons, ValueType.common, hfirst, if_pos]
  simpa using hrest

/-- Values of the types of a call are of the types of a method that accepts the call. -/
theorem Signature.conforms_of_accepts {method call : Signature}
    (haccepts : method.accepts call = true) {values : List Value}
    (hvalues : List.Forall₂ Value.Conforms values call.parameters) :
    List.Forall₂ Value.Conforms values method.parameters := by
  obtain ⟨_, haccepted⟩ := accepts_iff.mp haccepts
  generalize method.parameters = expected at haccepted ⊢
  generalize call.parameters = actual at hvalues haccepted
  induction hvalues generalizing expected with
  | nil =>
      cases haccepted
      exact .nil
  | cons hvalue _ ih =>
      obtain _ | ⟨hfirst, hrest⟩ := haccepted
      exact .cons (hvalue.of_accepts hfirst) (ih _ hrest)

namespace Method

variable {values : List Value}

theorem isShown_ofBuiltin (operation : Builtin) :
    ∀ type ∈ (ofBuiltin operation).signature.parameters, type.IsShown := by
  cases operation <;> simp [ofBuiltin, Builtin.parameters, ValueType.IsShown]

theorem validate_ofBuiltin {operation : Builtin}
    (hvalues : List.Forall₂ Value.Conforms values (ofBuiltin operation).signature.parameters) :
    (ofBuiltin operation).validate values = .ok () := by
  have hshown := isShown_ofBuiltin operation
  apply validate_eq_ok_iff.mpr
  generalize (ofBuiltin operation).signature.parameters = parameters at hvalues hshown ⊢
  induction hvalues with
  | nil => exact .nil
  | cons hvalue _ ih =>
      obtain ⟨hfirst, hrest⟩ := List.forall_mem_cons.mp hshown
      exact .cons (hfirst.accepts hvalue) (ih hrest)

/-- What a method of the library says to arguments of its types. -/
def verdict (method : Method) (values : List Value) : Except Error Unit :=
  if method = readContract ∧ values[3]? = some (.list []) then
    .error (.invalidParameters "readContract(address, string, any[], string[])"
      "parameter 3 must be string[], got any[]")
  else .ok ()

theorem validate_readContract
    (hvalues : List.Forall₂ Value.Conforms values readContract.signature.parameters) :
    readContract.validate values = readContract.verdict values := by
  obtain _ | ⟨hcontract, _ | ⟨hmember, _ | ⟨hinputs, _ | ⟨htypes, _ | _⟩⟩⟩⟩ := hvalues
  rename_i contract member inputs types
  obtain ⟨address, rfl⟩ := Value.conforms_address.mp hcontract
  cases member <;> try exact hmember.elim
  cases inputs <;> try exact hinputs.elim
  cases types <;> try exact htypes.elim
  rename_i outputs
  by_cases hempty : outputs = []
  · subst hempty
    rfl
  · have hstrings : (Value.list outputs).type = .list .string := Value.type_strings htypes hempty
    rw [verdict, if_neg (by simpa using hempty)]
    apply validate_eq_ok_iff.mpr
    exact .cons rfl (.cons rfl (.cons rfl (.cons (by rw [hstrings]; rfl) .nil)))

end Method

/-- A method of the standard library that accepts the types of a call refuses values of these
types only where `readContract` is given no output types. -/
theorem Library.validate_of_resolve {call : Signature} {method : Method} {values : List Value}
    (hresolve : standard.resolve call = .ok method)
    (hvalues : List.Forall₂ Value.Conforms values call.parameters) :
    method.validate values = method.verdict values := by
  have hparameters := Signature.conforms_of_accepts (accepts_of_resolve hresolve) hvalues
  rcases List.mem_append.mp (mem_of_resolve hresolve) with hbuiltin | hread
  · obtain ⟨operation, _, rfl⟩ := List.mem_map.mp hbuiltin
    have hother : Method.ofBuiltin operation ≠ .readContract := by
      intro hsame
      cases congrArg Method.behaviour hsame
    rw [Method.validate_ofBuiltin hparameters, Method.verdict, if_neg fun h => hother h.1]
  · obtain rfl := List.mem_singleton.mp hread
    exact Method.validate_readContract hparameters

namespace Plan

variable {library : Library} {settings : Settings σ}

/-- At the point the method is called with the values of its arguments. -/
inductive Point.Calls (library : Library) (settings : Settings σ) :
    Point σ → Method → List Value → Prop
  | instruction {place : Option Scope} {names next : Names} {instruction : Instruction}
      {rest : List Instruction} {state after : RunState σ} {method : Method}
      {operands : List ChainExtract.Operand} {result : Option String} {values : List Value}
      (hcompile : (instruction.compile library place).run names =
        .ok (.call method operands result, next))
      (hrun : (ChainExtract.Operand.evaluateAll operands).run settings state = .ok values after) :
      Calls library settings ⟨place, names, .instructions (instruction :: rest), state⟩ method values
  | operand {place : Option Scope} {names next : Names} {use : Use} {operand : Operand}
      {rest : List (Use × Operand)} {type : ValueType} {state after : RunState σ} {method : Method}
      {operands : List ChainExtract.Operand} {result : Option String} {values : List Value}
      (hcompile : (operand.compile library place).run names =
        .ok ((.call method operands result, type), next))
      (hrun : (ChainExtract.Operand.evaluateAll operands).run settings state = .ok values after) :
      Calls library settings ⟨place, names, .operands ((use, operand) :: rest), state⟩ method values

/-- The method of a call is the one that the library resolves the call to. -/
theorem resolve_of_resolveCall_ok {name : String} {types : List ValueType}
    {result storage? : Option String} {method : Method} {names after : Names}
    (hcall : (resolveCall library name types result).run names = .ok ((method, storage?), after)) :
    library.resolve ⟨name, types⟩ = .ok method := by
  obtain ⟨found, _, hfound, hrest⟩ := Compiler.of_bind_ok hcall
  obtain ⟨hmethod, _⟩ := Compiler.of_ofExcept_ok hfound
  cases result with
  | none =>
      obtain ⟨rfl, _, _⟩ := Compiler.of_pure_pair_ok hrest
      exact hmethod
  | some target =>
      obtain ⟨_, _, _, hreturn⟩ := Compiler.of_bind_ok hrest
      obtain ⟨rfl, _, _⟩ := Compiler.of_pure_pair_ok hreturn
      exact hmethod

theorem Instruction.of_compile_ok_call {place : Option Scope} {names after : Names}
    {instruction : Instruction} {method : Method} {operands : List ChainExtract.Operand}
    {storage? : Option String}
    (hcompile : (instruction.compile library place).run names =
      .ok (.call method operands storage?, after)) :
    ∃ name arguments result types second, instruction = .call name arguments result ∧
      (Operand.compileAll library place arguments).run names = .ok ((operands, types), second) ∧
      library.resolve ⟨name, types⟩ = .ok method := by
  cases instruction with
  | call name arguments result =>
      obtain ⟨_, types, second, _, _, harguments, hresolve, hsame⟩ := of_compile_call_ok hcompile
      cases hsame
      exact ⟨name, arguments, result, types, second, rfl, harguments,
        resolve_of_resolveCall_ok hresolve⟩
  | blocks =>
      obtain ⟨_, _, _, _, _, _, _, _, _, hsame, _⟩ := of_compile_blocks_ok hcompile
      cases hsame
  | transactions =>
      obtain ⟨_, _, _, _, _, _, _, _, _, hsame, _⟩ := of_compile_transactions_ok hcompile
      cases hsame
  | logEntries =>
      obtain ⟨_, _, _, _, _, _, _, _, _, hsame, _⟩ := of_compile_logEntries_ok hcompile
      cases hsame
  | «when» =>
      obtain ⟨_, _, _, _, _, _, hsame, _⟩ := of_compile_when_ok hcompile
      cases hsame
  | contract =>
      obtain ⟨_, _, _, _, _, _, _, _, _, _, _, _, hsame, _⟩ := of_compile_contract_ok hcompile
      cases hsame
  | assign =>
      obtain ⟨_, _, _, _, hsame, _⟩ := of_compile_assign_ok hcompile
      cases hsame
  | exportRow =>
      obtain ⟨_, _, hsame⟩ := of_compile_exportRow_ok hcompile
      cases hsame
  | exportLine =>
      obtain ⟨_, _, _, hsame⟩ := of_compile_exportLine_ok hcompile
      cases hsame
  | exportEvent =>
      obtain ⟨_, _, _, _, _, _, _, _, _, _, hsame⟩ := of_compile_exportEvent_ok hcompile
      cases hsame

theorem Operand.of_compile_ok_call {place : Option Scope} {names after : Names}
    {operand : Operand} {method : Method} {operands : List ChainExtract.Operand}
    {storage? : Option String} {type : ValueType}
    (hcompile : (operand.compile library place).run names =
      .ok ((.call method operands storage?, type), after)) :
    ∃ name arguments result types second, operand = .call name arguments result ∧
      (Operand.compileAll library place arguments).run names = .ok ((operands, types), second) ∧
      library.resolve ⟨name, types⟩ = .ok method := by
  cases operand with
  | call name arguments result =>
      obtain ⟨_, types, second, _, _, harguments, hresolve, hsame, _⟩ := of_compile_call_ok hcompile
      cases hsame
      exact ⟨name, arguments, result, types, second, rfl, harguments,
        resolve_of_resolveCall_ok hresolve⟩
  | stored name =>
      obtain ⟨_, _, hsame, _⟩ := of_compile_stored_ok hcompile
      cases hsame
  | chain name =>
      obtain ⟨_, _, _, hsame, _⟩ := of_compile_chain_ok hcompile
      cases hsame
  | list items =>
      obtain ⟨_, _, _, hsame, _⟩ := of_compile_list_ok hcompile
      cases hsame
  | address value => cases (of_compile_address_ok hcompile).1
  | bytes value => cases (of_compile_bytes_ok hcompile).1
  | integer text =>
      obtain ⟨_, _, hsame, _⟩ := of_compile_integer_ok hcompile
      cases hsame
  | literal json =>
      obtain ⟨_, _, hsame, _⟩ := of_compile_literal_ok hcompile
      cases hsame

/-- A call at a point is the call of a method that the library has resolved for the types of the
values. -/
theorem Point.Calls.resolved (hlibrary : library.Sound) {point : Point σ} {method : Method}
    {values : List Value} (hpoint : point.Sound library)
    (hcalls : point.Calls library settings method values) :
    ∃ name types, library.resolve ⟨name, types⟩ = .ok method ∧
      List.Forall₂ Value.Conforms values types := by
  have hplain := hpoint.plain
  cases hcalls with
  | instruction hcompile hrun =>
      obtain ⟨name, arguments, _, types, _, rfl, harguments, hresolve⟩ :=
        Instruction.of_compile_ok_call hcompile
      have hnames := (plain_append.mp (plain_append.mp hplain).1).1
      have hevaluates : Evaluates settings _ _ _ _ _ :=
        Operand.evaluatesAll_interpretAll library _ arguments hnames hpoint.names harguments
      obtain ⟨_, _, rfl, hvalues⟩ := hevaluates.typed_of_ok
        (Operand.types_interpretAll hlibrary arguments) hpoint.typed hrun
      exact ⟨name, types, hresolve, hvalues⟩
  | operand hcompile hrun =>
      obtain ⟨name, arguments, _, types, _, rfl, harguments, hresolve⟩ :=
        Operand.of_compile_ok_call hcompile
      have hnames := (plain_append.mp (plain_append.mp hplain).1).1
      have hevaluates : Evaluates settings _ _ _ _ _ :=
        Operand.evaluatesAll_interpretAll library _ arguments hnames hpoint.names harguments
      obtain ⟨_, _, rfl, hvalues⟩ := hevaluates.typed_of_ok
        (Operand.types_interpretAll hlibrary arguments) hpoint.typed hrun
      exact ⟨name, types, hresolve, hvalues⟩

/-- What has been resolved by static types is taken at run time, wherever a run of a compiled
plan calls a method: only an empty list of output types is refused. -/
theorem validate_of_arrives {plan : Plan} {program : Program Empty}
    (hcompile : plan.compile .standard = .ok program) (hplain : Plain plan.declares)
    (hclient : settings.client.Conforming) {start : RunState σ} {point : Point σ}
    (harrives : Arrives .standard settings plan start point) {method : Method}
    {values : List Value} (hcalls : point.Calls .standard settings method values) :
    method.validate values = method.verdict values := by
  have hpoint := Point.sound_of_arrives Library.sound_standard hclient hcompile hplain harrives
  obtain ⟨_, _, hresolve, hvalues⟩ := hcalls.resolved Library.sound_standard hpoint
  exact Library.validate_of_resolve hresolve hvalues

/-- A chain with contracts that list the names of their members: the types of an answer, or none
of them. -/
def listingSettings (empty : Bool) : Settings Nat where
  client :=
    { BlockRange.forkingClient 39 0 [] with
      member := fun query count =>
        (if query.outputTypes = ["string[]"] then
          .ok [.list (if empty then [] else [.str "uint256"])]
        else .error ⟨"no such member", []⟩, count) }
  abortOnFailure := false
  patience := 100
  stamp := ""

theorem conforming_listingSettings (empty : Bool) :
    (listingSettings empty).client.Conforming := by
  intro query state values hanswer
  simp only [listingSettings] at hanswer
  split at hanswer
  next htypes =>
    cases hanswer
    intro pair hpair type htype
    rw [htypes] at hpair
    obtain rfl := List.mem_singleton.mp hpair
    have hstrings : SolType.parse "string[]" = .ok (.array .string) := rfl
    obtain rfl : SolType.array .string = type := Except.ok.inj (hstrings.symm.trans htype)
    intro item hitem
    cases empty with
    | true => cases hitem
    | false =>
        obtain rfl := List.mem_singleton.mp hitem
        trivial
  next => cases hanswer

/-- Reads a member whose output types are the strings `types`. -/
def readListed : Instruction :=
  .call "readContract"
    [.address (.zero 20), .literal (.scalar (.string "nothing")), .list [], .stored "types"]
    (some "answer")

/-- Asks a contract for the strings, and reads with them. -/
def listingContract : Instruction :=
  .contract (.address (.zero 20)) [⟨"names", [], [⟨"types", "string[]"⟩]⟩] [readListed]

def listingPlan : Plan where
  outputs := []
  instructions := [.blocks (.literal (.scalar (.integer 1))) none [listingContract]]

def listingProgram : Program Empty :=
  [.blocks (.literal (.int 1)) none
    [.contract (.literal (.addr (.zero 20))) [⟨"names", [], [("types", "string[]")]⟩]
      [.call .readContract [.literal (.addr (.zero 20)), .literal (.str "nothing"), .list [],
        .stored "types"] (some "answer")]]]

theorem exists_fetched_listing (empty : Bool) : ∃ block window fetched, fetched.closed = false ∧
    (BlockRange.fetch { capacity := Window.rangeCapacity } 1).run (listingSettings empty)
      BlockRange.forkingStart = .ok (.ok (block, window)) fetched := by
  have hopen : ∀ empty, fetchedOpen ((BlockRange.fetch { capacity := Window.rangeCapacity } 1).run
      (listingSettings empty) BlockRange.forkingStart) = true := by decide +kernel
  specialize hopen empty
  generalize (BlockRange.fetch _ 1).run _ _ = outcome at hopen
  cases outcome with
  | ok result fetched =>
      cases result with
      | ok pair => exact ⟨pair.1, pair.2, fetched, by simpa [fetchedOpen] using hopen, rfl⟩
      | error => cases hopen
  | failed | unfinished => cases hopen

theorem run_listed {settings : Settings σ} {state : RunState σ} {storage : String}
    {types : List Value} (hget : state.store.get? storage = some (.list types)) :
    (ChainExtract.Operand.evaluateAll [.literal (.addr (.zero 20)), .literal (.str "nothing"),
        .list [], .stored storage]).run settings state =
      .ok [.addr (.zero 20), .str "nothing", .list [], .list types] state := by
  have hread : (Run.lookup storage).run settings state = .ok (.list types) state := by
    simp [Run.lookup, Store.get, hget]
  simp [ChainExtract.Operand.evaluateAll, ChainExtract.Operand.evaluate, hread]

/-- The run arrives at the reading of the member, with what the contract has listed. -/
theorem exists_calls_listing (empty : Bool) : ∃ point,
    Arrives .standard (listingSettings empty) listingPlan BlockRange.forkingStart point ∧
      point.Calls .standard (listingSettings empty) .readContract
        [.addr (.zero 20), .str "nothing", .list [],
          .list (if empty then [] else [.str "uint256"])] := by
  obtain ⟨block, window, ⟨chain, _, _, store, sinks, folder, journal⟩, rfl, hfetch⟩ :=
    exists_fetched_listing empty
  have hrange : Leads .standard (listingSettings empty)
      ⟨none, {}, .instructions listingPlan.instructions, BlockRange.forkingStart⟩
      ⟨some .block, ({} : Names).enter, .instructions [listingContract],
        ⟨chain, false, .atBlock block, store, sinks, folder, .delivered block :: journal⟩⟩ :=
    .body rfl rfl (.blocks rfl rfl rfl rfl .start rfl hfetch)
  have hcontract : Leads .standard (listingSettings empty)
      ⟨some .block, ({} : Names).enter, .instructions [listingContract],
        ⟨chain, false, .atBlock block, store, sinks, folder, .delivered block :: journal⟩⟩
      ⟨some .block, _, .instructions [readListed], _⟩ :=
    .body rfl rfl (.contract rfl)
  exact ⟨_, (Relation.ReflTransGen.refl.tail hrange).tail hcontract, .instruction rfl (run_listed (Store.get?_set_self _ _ _))⟩

theorem validate_of_arrives_listing :
    listingPlan.compile .standard = .ok listingProgram ∧ Plain listingPlan.declares ∧
      (listingSettings false).client.Conforming ∧ ∃ point,
        Arrives .standard (listingSettings false) listingPlan BlockRange.forkingStart point ∧
        point.Calls .standard (listingSettings false) .readContract
          [.addr (.zero 20), .str "nothing", .list [], .list [.str "uint256"]] ∧
        Method.validate .readContract
          [.addr (.zero 20), .str "nothing", .list [], .list [.str "uint256"]] = .ok () := by
  have hcompile : listingPlan.compile .standard = .ok listingProgram := rfl
  have hplain : Plain listingPlan.declares := by
    unfold Plain
    decide
  obtain ⟨point, harrives, hcalls⟩ := exists_calls_listing false
  exact ⟨hcompile, hplain, conforming_listingSettings false, point, harrives, hcalls,
    validate_of_arrives hcompile hplain (conforming_listingSettings false) harrives hcalls⟩

/-- A contract that answers the empty list of strings, as it was asked to, makes the run pass an
empty list where a list of strings is taken, which is refused. -/
theorem refused_of_empty_listing :
    ∃ (plan : Plan) (program : Program Empty) (settings : Settings Nat) (start : RunState Nat)
      (point : Point Nat) (values : List Value),
      plan.compile .standard = .ok program ∧ Plain plan.declares ∧ settings.client.Conforming ∧
        Arrives .standard settings plan start point ∧
        point.Calls .standard settings .readContract values ∧
        Method.validate .readContract values =
          .error (.invalidParameters "readContract(address, string, any[], string[])"
            "parameter 3 must be string[], got any[]") := by
  have hplain : Plain listingPlan.declares := by
    unfold Plain
    decide
  obtain ⟨point, harrives, hcalls⟩ := exists_calls_listing true
  exact ⟨listingPlan, listingProgram, listingSettings true, _, point, _, rfl, hplain,
    conforming_listingSettings true, harrives, hcalls, rfl⟩

end Plan

end ChainExtract
