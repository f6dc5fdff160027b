import ChainExtract.Proofs.BlockRange.Retrieval
import ChainExtract.Proofs.Scoping.Interpreter
import ChainExtract.Proofs.Typing.Decoding

/-! # Typed frames

In the frames of a plan each variable keeps a value of the type that it was declared with.
An assignment to a visible variable has a static type that the declared one accepts, and
everything that declares a variable has a value of the static type to declare it with.
-/

namespace ChainExtract

variable {σ α β : Type}

def Binding.Typed (binding : Binding) : Prop := binding.value.Conforms binding.type

theorem Binding.typed_zip {vars : List (String × ValueType)} {values : List Value}
    (hvalues : ∀ pair ∈ vars.zip values, pair.2.Conforms pair.1.2) :
    ∀ binding ∈ Binding.zip vars values, binding.2.Typed := by
  induction vars generalizing values with
  | nil => simp [Binding.zip]
  | cons first rest ih =>
      cases values with
      | nil => simp [Binding.zip]
      | cons value values =>
          obtain ⟨hfirst, hrest⟩ := List.forall_mem_cons.mp hvalues
          exact List.forall_mem_cons.mpr ⟨hfirst, ih hrest⟩

/-- The variables of a frame have values of their types. -/
def FrameTyped (frame : Keyed String Binding) : Prop :=
  ∀ name binding, frame.get? name = some binding → binding.Typed

theorem FrameTyped.set {frame : Keyed String Binding} (hframe : FrameTyped frame) (name : String)
    {binding : Binding} (hbinding : binding.Typed) : FrameTyped (frame.set name binding) := by
  intro other found hget
  rcases Keyed.get?_set_eq_some hget with ⟨_, rfl⟩ | ⟨_, hold⟩
  · exact hbinding
  · exact hframe other found hold

namespace Frames

def Typed (frames : Frames) : Prop := ∀ frame ∈ frames, FrameTyped frame

variable {frames : Frames} {name : String}

theorem Typed.enter (htyped : frames.Typed) : Typed ([] :: frames) :=
  List.forall_mem_cons.mpr ⟨fun _ _ hget => by simp [Keyed.get?] at hget, htyped⟩

theorem Typed.tail (htyped : frames.Typed) : Typed frames.tail :=
  fun frame hframe => htyped frame (List.mem_of_mem_tail hframe)

theorem Typed.find? (htyped : frames.Typed) {binding : Binding}
    (hfind : frames.find? name = some binding) : binding.Typed := by
  obtain ⟨frame, hframe, hget⟩ := List.exists_of_findSome?_eq_some hfind
  exact htyped frame hframe name binding hget

theorem Typed.declare (htyped : frames.Typed) (name : String) {binding : Binding}
    (hbinding : binding.Typed) : (frames.declare name binding).Typed := by
  cases frames with
  | nil => exact htyped
  | cons frame outer =>
      obtain ⟨hframe, houter⟩ := List.forall_mem_cons.mp htyped
      exact List.forall_mem_cons.mpr ⟨hframe.set name hbinding, houter⟩

theorem Typed.declareAll (htyped : frames.Typed) {bindings : List (String × Binding)}
    (hbindings : ∀ binding ∈ bindings, binding.2.Typed) : (frames.declareAll bindings).Typed := by
  induction bindings generalizing frames with
  | nil => exact htyped
  | cons first rest ih =>
      obtain ⟨hfirst, hrest⟩ := List.forall_mem_cons.mp hbindings
      exact ih (htyped.declare first.1 hfirst) hrest

theorem Typed.update (htyped : frames.Typed) {binding : Binding}
    (hfind : frames.find? name = some binding) {value : Value}
    (hvalue : value.Conforms binding.type) : (frames.update name value).Typed := by
  induction frames with
  | nil => exact htyped
  | cons frame outer ih =>
      obtain ⟨hframe, houter⟩ := List.forall_mem_cons.mp htyped
      unfold Frames.find? at hfind
      rw [List.findSome?_cons] at hfind
      rw [Frames.update]
      cases hget : frame.get? name with
      | some found =>
          rw [hget] at hfind
          cases hfind
          exact List.forall_mem_cons.mpr ⟨hframe.set name hvalue, houter⟩
      | none =>
          rw [hget] at hfind
          exact List.forall_mem_cons.mpr ⟨hframe, ih houter hfind⟩

/-- An assignment keeps the declared type of a visible variable, which accepts the static type
of the value, or declares a variable of that type. -/
theorem Typed.assign (htyped : frames.Typed) (name : String) {type : ValueType} {value : Value}
    (hvalue : value.Conforms type) : (frames.assign name type value).Typed := by
  unfold Frames.assign
  split
  next binding hfind =>
    split
    next haccepts => exact htyped.update hfind (hvalue.of_accepts haccepts)
    next => exact htyped.declare name hvalue
  next => exact htyped.declare name hvalue

end Frames

/-- The frames of a run are typed. -/
def RunState.Typed (framed : RunState (Scoped σ)) : Prop := framed.chain.frames.Typed

namespace Run

variable {settings : Settings σ}

/-- From typed frames a run comes to typed frames only, with results that have `Q`. -/
abbrev Types (settings : Settings σ) (Q : α → Prop) (x : Run (Scoped σ) α) : Prop :=
  x.Maintains settings.scoped RunState.Typed Q fun _ => True

theorem visitStable_typed : VisitStable settings.scoped RunState.Typed :=
  ⟨fun _ _ htyped => htyped, fun _ _ _ htyped => htyped⟩

theorem operandStable_typed : OperandStable settings.scoped RunState.Typed :=
  ⟨fun _ _ _ htyped => htyped, fun _ _ htyped => htyped⟩

theorem rangeStable_typed : BlockRange.RangeStable settings.scoped RunState.Typed where
  visits := visitStable_typed
  retrieval := ⟨fun _ htyped => htyped, fun _ _ htyped => htyped, fun _ _ _ htyped => htyped⟩
  delivered := fun _ _ htyped => htyped
  finished := fun _ _ htyped => ⟨htyped, trivial⟩

theorem types_frames : Run.frames.Types settings Frames.Typed :=
  fun _ htyped => ⟨htyped, htyped⟩

theorem types_modifyFrames {change : Frames → Frames}
    (hchange : ∀ frames : Frames, frames.Typed → (change frames).Typed) :
    (Run.modifyFrames change).Types settings fun _ => True :=
  maintains_modify fun framed htyped => hchange framed.chain.frames htyped

/-- A frame of its own that begins with typed variables. -/
theorem types_enter {bindings : List (String × Binding)}
    (hbindings : ∀ binding ∈ bindings, binding.2.Typed) :
    (Run.modifyFrames fun frames => Frames.declareAll ([] :: frames) bindings).Types settings
      fun _ => True :=
  types_modifyFrames fun _ htyped => htyped.enter.declareAll hbindings

theorem types_emit (record : Record) :
    (emit record : Run (Scoped σ) Unit).Types settings fun _ => True :=
  fun _ htyped => ⟨htyped, trivial⟩

theorem types_ofExcept {outcome : Except Error α} {Q : α → Prop}
    (hresult : ∀ result, outcome = .ok result → Q result) :
    (ofExcept outcome : Run (Scoped σ) α).Types settings Q :=
  maintains_ofExcept hresult fun _ _ => trivial

theorem types_ofCompiled {outcome : Except CompileError α} {Q : α → Prop}
    (hresult : ∀ result, outcome = .ok result → Q result) :
    (ofCompiled outcome : Run (Scoped σ) α).Types settings Q := by
  cases outcome with
  | ok result => exact maintains_pure (hresult result rfl)
  | error error => exact maintains_fail trivial

theorem types_within {bindings : List (String × Binding)}
    (hbindings : ∀ binding ∈ bindings, binding.2.Typed) {x : Run (Scoped σ) Unit}
    (hx : x.Types settings fun _ => True) :
    (Run.within bindings x).Types settings fun _ => True := by
  apply (types_enter hbindings).bind
  intro _ _
  apply hx.upholds.attempt.bind
  intro outcome
  exact (types_modifyFrames fun _ htyped => htyped.tail).bind fun _ _ => upholds_ofExcept outcome

end Run

section

variable {settings : Settings σ}

/-- A method of a sound library returns values of the type that it declares. -/
theorem Method.types_invoke {method : Method} (hsound : method.Sound) (arguments : List Value) :
    (method.invoke arguments : Run (Scoped σ) Value).Types settings
      fun value => value.Conforms method.returns := by
  apply (Run.upholds_ofExcept (method.validate arguments)).bind
  intro _
  unfold Method.Sound at hsound
  unfold perform
  cases hbehaviour : method.behaviour with
  | builtin operation =>
      rw [hbehaviour] at hsound
      rw [hsound]
      exact Run.types_ofExcept (operation.yields_apply arguments)
  | readContract =>
      rw [hbehaviour] at hsound
      rw [hsound]
      apply (Run.upholds_ofExcept _).bind
      intro contract
      apply (Run.upholds_ofExcept _).bind
      intro member
      apply (Run.upholds_ofExcept _).bind
      intro inputs
      apply (Run.upholds_ofExcept _).bind
      intro types
      apply Run.upholds_state.bind
      intro framed
      split
      · exact Run.maintains_fail trivial
      · apply (Run.upholds_query Run.operandStable_typed _).bind
        intro values
        exact Run.maintains_pure fun item _ => item.conforms_any
  | constant value =>
      rw [hbehaviour] at hsound
      exact Run.maintains_pure hsound

theorem LogEntryFilter.types_enter (event : EventDecl) (index : Nat) :
    (enter event index : Run (Scoped σ) _).Types settings fun decoded =>
      ∀ pair ∈ event.parameters.zip (decoded.map (·.2)), pair.2.Conforms pair.1.valueType := by
  apply Run.upholds_state.bind
  intro framed
  apply (Run.upholds_ofExcept _).bind
  intro cursor
  apply (Run.upholds_setCursor Run.visitStable_typed cursor).bind
  intro _
  apply Run.upholds_state.bind
  intro pointing
  split
  · exact Run.types_ofExcept fun decoded hdecode => EventDecl.conforms_decode hdecode
  · exact Run.maintains_pure (by simp)

theorem ContractFilter.types_ask (hclient : settings.client.Conforming) (target : Address × Int)
    (member : String) (inputs : List Value) (types : List String) :
    (ask target member inputs types : Run (Scoped σ) _).Types settings fun values =>
      ∀ pair ∈ types.zip values, ∀ type, SolType.parse pair.1 = .ok type →
        pair.2.Conforms type.valueType := by
  have hquery : (Run.query ⟨target.1, target.2, member, inputs, types⟩ :
      Run (Scoped σ) _).Types settings fun values =>
        ∀ pair ∈ types.zip values, ∀ type, SolType.parse pair.1 = .ok type →
          pair.2.Conforms type.valueType := by
    unfold Run.query
    apply Run.maintains_request
    · exact fun _ htyped => htyped
    · exact fun framed values _ hanswer => hclient _ framed.chain.chain values hanswer
    · exact fun _ _ _ => trivial
    · exact fun _ => trivial
  apply hquery.bind
  intro values hvalues
  split
  · exact (Run.upholds_fail _).bind fun _ => Run.maintains_pure hvalues
  · exact Run.maintains_pure hvalues

end

namespace Plan

variable {library : Library} {settings : Settings σ}

theorem types_invoke (hlibrary : library.Sound) (name : String) (values : List Value)
    (types : List ValueType) (result : Option String) :
    (invoke library name values types result : Run (Scoped σ) _).Types settings
      fun result => result.1.Conforms result.2 := by
  refine Run.Maintains.bind (Run.types_ofExcept fun method hresolve =>
    hlibrary method (Library.mem_of_resolve hresolve)) fun method hsound => ?_
  apply (Method.types_invoke hsound values).bind
  intro value hvalue
  cases result with
  | none => exact Run.maintains_pure hvalue
  | some target =>
      apply (Run.types_modifyFrames fun _ htyped => htyped.assign target hvalue).bind
      intro _ _
      exact Run.maintains_pure hvalue

mutual

/-- The value of an operand is of its static type. -/
theorem Operand.types_interpret (hlibrary : library.Sound) : ∀ operand : Operand,
    (operand.interpret library : Run (Scoped σ) _).Types settings
      fun result => result.1.Conforms result.2
  | .stored name => by
      rw [Operand.interpret]
      apply Run.types_frames.bind
      intro frames hframes
      split
      next binding hfind => exact Run.maintains_pure (hframes.find? hfind)
      next => exact Run.maintains_fail trivial
  | .chain name => by
      rw [Operand.interpret]
      apply Run.upholds_state.bind
      intro framed
      refine Run.Maintains.bind (Run.types_ofExcept fun _ hvalue => hvalue) fun value hvalue => ?_
      apply Run.maintains_pure
      cases hfind : ChainVariable.find? name with
      | none => exact value.conforms_any
      | some var => exact ChainVariable.conforms_of_valueAt hfind hvalue
  | .call name arguments result => by
      rw [Operand.interpret]
      apply (Operand.types_interpretAll hlibrary arguments).bind
      intro values _
      exact types_invoke hlibrary name values.1 values.2 result
  | .list items => by
      rw [Operand.interpret]
      apply (Operand.types_interpretAll hlibrary items).bind
      intro values hvalues
      exact Run.maintains_pure (conforms_listType hvalues)
  | .address value => by
      rw [Operand.interpret]
      exact Run.maintains_pure trivial
  | .bytes value => by
      rw [Operand.interpret]
      exact Run.maintains_pure trivial
  | .integer text => by
      rw [Operand.interpret]
      split
      · exact Run.maintains_pure trivial
      · exact Run.maintains_fail trivial
  | .literal json => by
      rw [Operand.interpret]
      refine Run.Maintains.bind (Run.types_ofCompiled fun _ _ => trivial) fun value _ => ?_
      exact Run.maintains_pure value.conforms_type

theorem Operand.types_interpretAll (hlibrary : library.Sound) : ∀ operands : List Operand,
    (Operand.interpretAll library operands : Run (Scoped σ) _).Types settings
      fun result => List.Forall₂ Value.Conforms result.1 result.2
  | [] => by
      rw [Operand.interpretAll]
      exact Run.maintains_pure .nil
  | operand :: operands => by
      rw [Operand.interpretAll]
      apply (Operand.types_interpret hlibrary operand).bind
      intro first hfirst
      apply (Operand.types_interpretAll hlibrary operands).bind
      intro later hlater
      exact Run.maintains_pure (.cons hfirst hlater)

end

theorem Operand.types_interpret? (hlibrary : library.Sound) (operand? : Option Operand) :
    (Operand.interpret? library operand? : Run (Scoped σ) _).Types settings fun _ => True := by
  cases operand? with
  | none => exact Run.upholds_pure none
  | some operand =>
      exact (Operand.types_interpret hlibrary operand).upholds.bind fun _ => Run.upholds_pure _

theorem Operand.types_interpretAddresses (hlibrary : library.Sound) (subject : String)
    (operand? : Option Operand) :
    (Operand.interpretAddresses library subject operand? :
      Run (Scoped σ) _).Types settings fun _ => True :=
  (Operand.types_interpret? hlibrary operand?).bind fun _ _ => Run.upholds_ofExcept _

theorem Operand.types_interpretCells (hlibrary : library.Sound)
    (columns : List (String × Operand)) :
    (Operand.interpretCells library columns : Run (Scoped σ) _).Types settings fun _ => True := by
  induction columns with
  | nil => exact Run.upholds_pure _
  | cons column columns ih =>
      exact (Operand.types_interpret hlibrary column.2).upholds.bind fun _ =>
        ih.bind fun _ _ => Run.upholds_pure _

theorem Attribute.types_interpretAll (hlibrary : library.Sound) (attributes : List Attribute) :
    (Attribute.interpretAll library attributes :
      Run (Scoped σ) _).Types settings fun _ => True := by
  induction attributes with
  | nil => exact Run.upholds_pure _
  | cons entry attributes ih =>
      exact (Operand.types_interpret hlibrary entry.value).upholds.bind fun _ =>
        (Run.upholds_ofExcept _).bind fun _ => ih.bind fun _ _ => Run.upholds_pure _

theorem typed_zip_eventVars {event : EventDecl} {decoded : List (String × Value)}
    (hdecoded : ∀ pair ∈ event.parameters.zip (decoded.map (·.2)),
      pair.2.Conforms pair.1.valueType) :
    ∀ binding ∈ Binding.zip (eventVars event) (decoded.map (·.2)), binding.2.Typed := by
  apply Binding.typed_zip
  unfold eventVars
  rw [List.zip_map_left]
  intro pair hpair
  obtain ⟨source, hsource, rfl⟩ := List.mem_map.mp hpair
  exact hdecoded source hsource

/-- The body of a log entry begins with parameters of their types. -/
theorem Parameter.types_visit (event : EventDecl) {body : Run (Scoped σ) Unit}
    (hbody : body.Types settings fun _ => True) (index : Nat) :
    (Parameter.visit event body index).Types settings fun _ => True := by
  apply (LogEntryFilter.types_enter event index).bind
  intro decoded hdecoded
  exact Run.types_within (typed_zip_eventVars hdecoded) hbody

theorem MemberOutput.conforms_of_interpretAll {outputs : List MemberOutput}
    {vars : List (String × ValueType)} (hvars : MemberOutput.interpretAll outputs = .ok vars)
    {values : List Value}
    (hvalues : ∀ pair ∈ (outputs.map (·.type)).zip values, ∀ type,
      SolType.parse pair.1 = .ok type → pair.2.Conforms type.valueType) :
    ∀ pair ∈ vars.zip values, pair.2.Conforms pair.1.2 := by
  induction outputs generalizing vars values with
  | nil =>
      cases hvars
      simp
  | cons output outputs ih =>
      obtain ⟨type, htype, hrest⟩ := exists_of_bind_ok hvars
      obtain ⟨later, hlater, hreturn⟩ := exists_of_bind_ok hrest
      cases hreturn
      cases values with
      | nil => simp
      | cons value values =>
          obtain ⟨hfirst, hvalues⟩ := List.forall_mem_cons.mp hvalues
          exact List.forall_mem_cons.mpr ⟨hfirst type htype, ih hlater hvalues⟩

/-- What the members of contracts return is bound with values of its types. -/
theorem MemberQuery.types_interpretAll (hlibrary : library.Sound)
    (hclient : settings.client.Conforming) (target : Address × Int) (queries : List MemberQuery) :
    (MemberQuery.interpretAll library target queries : Run (Scoped σ) _).Types settings
      fun bindings => ∀ binding ∈ bindings, binding.2.Typed := by
  induction queries with
  | nil => exact Run.maintains_pure (by simp)
  | cons query queries ih =>
      apply (Operand.types_interpretAll hlibrary query.inputs).bind
      intro inputs _
      apply (ContractFilter.types_ask hclient target query.member inputs.1 _).bind
      intro values hvalues
      refine Run.Maintains.bind (Run.types_ofExcept fun _ hvars => hvars) fun vars hvars => ?_
      apply ih.bind
      intro later hlater
      refine Run.maintains_pure fun binding hbinding => ?_
      rcases List.mem_append.mp hbinding with hfirst | hrest
      · exact Binding.typed_zip (MemberOutput.conforms_of_interpretAll hvars hvalues) binding hfirst
      · exact hlater binding hrest

/-- Behind questions to the contract that an operand gives, there are typed bindings. -/
theorem MemberQuery.types_asks (hlibrary : library.Sound) (hclient : settings.client.Conforming)
    (address : Operand) (queries : List MemberQuery) {Q : α → Prop}
    {rest : List (String × Binding) → Run (Scoped σ) α}
    (hrest : ∀ bindings : List (String × Binding), (∀ binding ∈ bindings, binding.2.Typed) →
      (rest bindings).Types settings Q) :
    (do
      let target ← ContractFilter.target (← address.interpret library).1
      let bindings ← MemberQuery.interpretAll library target queries
      rest bindings : Run (Scoped σ) α).Types settings Q := by
  apply (Operand.types_interpret hlibrary address).upholds.bind
  intro value
  apply (Run.upholds_target value.1).bind
  intro target
  exact (MemberQuery.types_interpretAll hlibrary hclient target queries).bind hrest

mutual

/-- Instructions keep the frames typed. -/
theorem Instruction.types_interpret (hlibrary : library.Sound)
    (hclient : settings.client.Conforming) : ∀ instruction : Instruction,
    (instruction.interpret library : Run (Scoped σ) Unit).Types settings fun _ => True
  | .blocks first last body => by
      have hbody := Instruction.types_interpretAll hlibrary hclient body
      rw [Instruction.interpret]
      apply (Operand.types_interpret hlibrary first).upholds.bind
      intro lower
      apply (Run.upholds_ofExcept _).bind
      intro start
      apply (Operand.types_interpret? hlibrary last).bind
      intro upper _
      apply (Run.upholds_ofExcept _).bind
      intro stop
      exact BlockRange.upholds_visitAll Run.rangeStable_typed
        (Run.types_within (by simp) hbody) start stop
  | .transactions senders recipients body => by
      have hbody := Instruction.types_interpretAll hlibrary hclient body
      rw [Instruction.interpret]
      apply (Operand.types_interpretAddresses hlibrary _ senders).bind
      intro senders _
      apply (Operand.types_interpretAddresses hlibrary _ recipients).bind
      intro recipients _
      exact Run.upholds_transactions Run.visitStable_typed (Run.types_within (by simp) hbody)
        senders recipients
  | .logEntries event parameters emitters body => by
      have hbody := Instruction.types_interpretAll hlibrary hclient body
      rw [Instruction.interpret]
      apply (Operand.types_interpretAddresses hlibrary _ emitters).bind
      intro emitters _
      apply (Run.upholds_ofExcept _).bind
      intro declared
      exact Run.upholds_visitMatching Run.visitStable_typed
        (Parameter.types_visit ⟨event, declared⟩ hbody) _ emitters
  | .when condition body => by
      have hbody := Instruction.types_interpretAll hlibrary hclient body
      rw [Instruction.interpret]
      apply (Operand.types_interpret hlibrary condition).upholds.bind
      intro value
      exact Run.upholds_runWhen value.1 (Run.types_within (by simp) hbody)
  | .contract address queries body => by
      have hbody := Instruction.types_interpretAll hlibrary hclient body
      rw [Instruction.interpret]
      exact MemberQuery.types_asks hlibrary hclient address queries fun _ hbindings =>
        Run.types_within hbindings hbody
  | .assign target value => by
      rw [Instruction.interpret]
      apply (Operand.types_interpret hlibrary value).bind
      intro result hresult
      exact Run.types_modifyFrames fun _ htyped => htyped.assign target hresult
  | .call method arguments result => by
      rw [Instruction.interpret]
      apply (Operand.types_interpretAll hlibrary arguments).bind
      intro values _
      exact (types_invoke hlibrary method values.1 values.2 result).upholds.bind fun _ =>
        Run.upholds_pure ()
  | .exportRow table columns => by
      rw [Instruction.interpret]
      apply (Operand.types_interpretCells hlibrary columns).bind
      intro cells _
      exact Run.types_emit _
  | .exportLine parts => by
      rw [Instruction.interpret]
      apply (Operand.types_interpretAll hlibrary parts).bind
      intro values _
      exact Run.types_emit _
  | .exportEvent trace event attributes => by
      rw [Instruction.interpret]
      apply (Operand.types_interpret hlibrary trace).upholds.bind
      intro trace
      apply (Operand.types_interpret hlibrary event).upholds.bind
      intro event
      apply (Attribute.types_interpretAll hlibrary attributes).bind
      intro attributes _
      exact Run.types_emit _

theorem Instruction.types_interpretAll (hlibrary : library.Sound)
    (hclient : settings.client.Conforming) : ∀ instructions : List Instruction,
    (Instruction.interpretAll library instructions :
      Run (Scoped σ) Unit).Types settings fun _ => True
  | [] => by
      rw [Instruction.interpretAll]
      exact Run.upholds_pure ()
  | instruction :: rest => by
      rw [Instruction.interpretAll]
      exact (Instruction.types_interpret hlibrary hclient instruction).bind fun _ _ =>
        Instruction.types_interpretAll hlibrary hclient rest

end

end Plan

end ChainExtract
