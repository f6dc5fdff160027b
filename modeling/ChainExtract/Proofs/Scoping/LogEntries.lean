import ChainExtract.Proofs.Scoping.Operands
import Mathlib.Data.List.Forall2

/-! # Log entries

The parameters of a compiled event have storage names, which changes nothing but
the names under which the decoded values are set. They are set for the body and
removed behind it, which in the frames is a frame that begins with them.
-/

namespace ChainExtract

theorem SolType.exists_decodeValue {type : SolType} (htype : type.isWord = true) (word : Word) :
    ∃ value, type.decodeValue word.bytes = .ok value := by
  have hlength : word.bytes.length = 32 := word.length_bytes
  have htake : (word.bytes.take 32).length = 32 := by simp [hlength]
  have hread : (AbiReader.ofBytes word.bytes).word =
      .ok (⟨word.bytes.take 32, htake⟩, ⟨word.bytes, word.bytes.drop 32, 0⟩) := by
    simp [AbiReader.word, AbiReader.ofBytes, htake]
  have hroom : (AbiReader.ofBytes word.bytes).remainingWords = 1 := by
    simp [AbiReader.remainingWords, AbiReader.ofBytes, hlength]
  cases type with
  | bytes | string | array | fixedArray | tuple => cases htype
  | _ =>
      simp only [decodeValue, decodeWith, isEmpty, minWords, hroom, decode, hread]
      exact ⟨_, rfl⟩

namespace EventParameter

/-- Two parameters that differ in their names at most. -/
def SameShape (first second : EventParameter) : Prop :=
  second.indexed = first.indexed ∧ second.type = first.type

theorem exists_decodeTopic (parameter : EventParameter) (topic : Word) :
    ∃ value, ∀ second, SameShape parameter second → second.decodeTopic topic = .ok value := by
  by_cases hword : parameter.type.isWord = true
  · obtain ⟨value, hvalue⟩ := SolType.exists_decodeValue hword topic
    refine ⟨value.toValue, ?_⟩
    rintro second ⟨_, htype⟩
    simp only [decodeTopic, htype, hword, hvalue, ↓reduceIte]
  · refine ⟨.bytes topic.bytes, ?_⟩
    rintro second ⟨_, htype⟩
    simp only [decodeTopic, htype, hword, Bool.false_eq_true, ↓reduceIte]

end EventParameter

namespace EventDecl

/-- Two events that differ in the names of their parameters at most. -/
structure SameShape (first second : EventDecl) : Prop where
  name : second.name = first.name
  parameters : List.Forall₂ EventParameter.SameShape first.parameters second.parameters

variable {event stored : EventDecl}

theorem SameShape.refl (event : EventDecl) : SameShape event event :=
  ⟨rfl, List.forall₂_same.mpr fun _ _ => ⟨rfl, rfl⟩⟩

theorem map_type_eq {parameters renamed : List EventParameter}
    (hshape : List.Forall₂ EventParameter.SameShape parameters renamed) :
    renamed.map (·.type) = parameters.map (·.type) := by
  induction hshape with
  | nil => rfl
  | cons hfirst _ ih => rw [List.map_cons, List.map_cons, hfirst.2, ih]

theorem SameShape.topic_eq (hshape : SameShape event stored) : stored.topic = event.topic := by
  have htypes := congrArg (List.map SolType.name) (map_type_eq hshape.parameters)
  rw [List.map_map, List.map_map] at htypes
  unfold topic canonical
  rw [hshape.name]
  exact congrArg (fun names => Keccak.hashText (event.name ++ "(" ++ ",".intercalate names ++ ")"))
    htypes

theorem SameShape.indexedCount_eq (hshape : SameShape event stored) :
    stored.indexedCount = event.indexedCount := by
  have hparameters := hshape.parameters
  unfold indexedCount
  generalize event.parameters = parameters at hparameters ⊢
  generalize stored.parameters = renamed at hparameters ⊢
  induction hparameters with
  | nil => rfl
  | cons hfirst _ ih => rw [List.countP_cons, List.countP_cons, hfirst.1, ih]

theorem SameShape.bodyType_eq (hshape : SameShape event stored) :
    stored.bodyType = event.bodyType := by
  have hparameters := hshape.parameters
  unfold bodyType
  apply congrArg SolType.tuple
  generalize event.parameters = parameters at hparameters ⊢
  generalize stored.parameters = renamed at hparameters ⊢
  induction hparameters with
  | nil => rfl
  | cons hfirst _ ih =>
      rw [List.filter_cons, List.filter_cons, hfirst.1]
      split
      · rw [List.map_cons, List.map_cons, hfirst.2, ih]
      · exact ih

/-- Parameters take the same values whatever they are called. -/
theorem exists_assign (event : EventDecl) (parameters : List EventParameter) (topics : List Word)
    (body : List SolValue) :
    ∃ result : Except Error (List Value),
      (∀ values, result = .ok values → values.length = parameters.length) ∧
      ∀ stored : EventDecl, stored.name = event.name → ∀ renamed : List EventParameter,
        List.Forall₂ EventParameter.SameShape parameters renamed →
        stored.assign renamed topics body = result.map (renamed.map (·.name)).zip := by
  -- indexed parameters take topics, the others take values of the data
  induction parameters generalizing topics body with
  | nil =>
      refine ⟨.ok [], fun _ hvalues => by cases hvalues; rfl, ?_⟩
      intro stored _ renamed hshape
      cases hshape
      rfl
  | cons parameter rest ih =>
      cases hindexed : parameter.indexed with
      | true =>
          cases topics with
          | nil =>
              refine ⟨.error (.decode event.name "missing topic"), by simp, ?_⟩
              rintro stored hname renamed (_ | ⟨hfirst, _⟩)
              simp [assign, hfirst.1, hindexed, hname, Except.map]
          | cons topic topics =>
              obtain ⟨value, hvalue⟩ := parameter.exists_decodeTopic topic
              obtain ⟨result, hlength, hresult⟩ := ih topics body
              refine ⟨result.map (value :: ·), ?_, ?_⟩
              · intro values hvalues
                cases result with
                | error => cases hvalues
                | ok later =>
                    cases hvalues
                    simp [hlength later rfl]
              · rintro stored hname renamed (_ | ⟨hfirst, hlater⟩)
                simp only [assign, hfirst.1, hindexed, hvalue _ hfirst,
                  hresult stored hname _ hlater, ↓reduceIte]
                cases result <;> rfl
      | false =>
          cases body with
          | nil =>
              refine ⟨.error (.decode event.name "missing data"), by simp, ?_⟩
              rintro stored hname renamed (_ | ⟨hfirst, _⟩)
              simp [assign, hfirst.1, hindexed, hname, Except.map]
          | cons value body =>
              obtain ⟨result, hlength, hresult⟩ := ih topics body
              refine ⟨result.map (value.toValue :: ·), ?_, ?_⟩
              · intro values hvalues
                cases result with
                | error => cases hvalues
                | ok later =>
                    cases hvalues
                    simp [hlength later rfl]
              · rintro stored hname renamed (_ | ⟨hfirst, hlater⟩)
                simp only [assign, hfirst.1, hindexed, hresult stored hname _ hlater,
                  Bool.false_eq_true, ↓reduceIte]
                cases result <;> rfl

/-- A log entry has the same values whatever the parameters are called. -/
theorem exists_decode (event : EventDecl) (topics : List Word) (data : Bytes) :
    ∃ result : Except Error (List Value),
      (∀ values, result = .ok values → values.length = event.parameters.length) ∧
      ∀ stored : EventDecl, SameShape event stored →
        stored.decode topics data = result.map (stored.parameters.map (·.name)).zip := by
  by_cases htopics : topics.length = event.indexedCount + 1
  · cases hbody : event.bodyType.decodeSequence data with
    | error error =>
        refine ⟨.error (.decode event.name error.message), by simp, ?_⟩
        intro stored hshape
        simp [decode, hshape.indexedCount_eq, hshape.bodyType_eq, hshape.name, htopics, hbody,
          Except.map]
    | ok body =>
        obtain ⟨result, hlength, hresult⟩ :=
          event.exists_assign event.parameters topics.tail body.items
        refine ⟨result, hlength, fun stored hshape => ?_⟩
        rw [← hresult stored hshape.name _ hshape.parameters]
        simp [decode, hshape.indexedCount_eq, hshape.bodyType_eq, htopics, hbody]
  · obtain ⟨error, herror⟩ : ∃ error, event.decode topics data = .error error := by
      simp only [decode, ne_eq, htopics, not_false_eq_true, ↓reduceIte]
      exact ⟨_, rfl⟩
    refine ⟨.error error, by simp, fun stored hshape => ?_⟩
    rw [Except.map, ← herror]
    simp only [decode, hshape.indexedCount_eq, hshape.name, ne_eq, htopics, not_false_eq_true,
      ↓reduceIte]
    rfl

end EventDecl

theorem Cursor.exists_logEntry {cursor after : Cursor} {index : Nat}
    (hat : cursor.atLogEntry index = .ok after) : ∃ entry, after.logEntry = some entry := by
  unfold atLogEntry at hat
  cases htransaction : cursor.transaction with
  | none =>
      rw [htransaction] at hat
      cases hat
  | some transaction =>
      rw [htransaction] at hat
      simp only at hat
      split at hat
      next hindex =>
        cases hat
        refine ⟨transaction.logs[index], ?_⟩
        have hkept : ({ cursor with logEntryAt := some index } : Cursor).transaction =
            some transaction := htransaction
        simp [logEntry, hkept, hindex]
      next => cases hat

namespace LogEntryFilter

variable {σ : Type} {settings : Settings σ} {event stored : EventDecl}

theorem steady_enter {F : Store → Frames → Prop} (hshape : event.SameShape stored) (index : Nat) :
    (enter stored index : Run σ _).Steady settings F
      (fun found declared => ∃ values, values.length = event.parameters.length ∧
        found = (stored.parameters.map (·.name)).zip values ∧ declared.map (·.2) = values)
      (enter event index) := by
  intro state framed hrelated
  have hcursor := hrelated.view.cursor
  simp only [enter, Run.run_bind, Run.run_state, hcursor]
  cases hat : state.cursor.atLogEntry index with
  | error error => exact .failed error hrelated
  | ok cursor =>
      obtain ⟨entry, hentry⟩ := Cursor.exists_logEntry hat
      obtain ⟨result, hlength, hresult⟩ := event.exists_decode entry.topics entry.data
      have hnext : Related F { state with cursor } { framed with cursor } :=
        ⟨{ hrelated.view with cursor := rfl }, hrelated.agree⟩
      simp only [Run.run_ofExcept_ok, Run.setCursor, Run.run_modify, hentry, hresult stored hshape,
        hresult event (.refl event)]
      cases result with
      | error error => exact .failed error hnext
      | ok values =>
          refine .ok ⟨values, hlength values rfl, rfl, ?_⟩ hnext
          exact List.map_snd_zip (by simp [hlength values rfl])

variable (settings) in
/-- Setting the parameters of a log entry pins their values. -/
theorem simulates_set {α β : Type} {names : Names} (hsound : names.Sound)
    (hplain : ∀ declared ∈ Plan.eventVars event, '#' ∉ declared.1.toList)
    (hshape : event.SameShape stored)
    (hstored : stored.parameters.map (·.name) = (names.enter.declareAll (Plan.eventVars event)).1)
    {pins : List (String × Value)}
    (hapart : ∀ pin ∈ pins, pin.1 ∉ (names.enter.declareAll (Plan.eventVars event)).1)
    {G H : Store → Frames → Prop} {Q : α → β → Prop}
    (hkept : ∀ store frames, Holding names pins store frames → H store frames)
    {f : List (String × Value) → Run σ α} {g : List Value → Run (Scoped σ) β}
    (hlater : ∀ values : List Value, values.length = (Plan.eventVars event).length →
      (f ((names.enter.declareAll (Plan.eventVars event)).1.zip values)).Simulates settings
        (Holding names (pins ++ (names.enter.declareAll (Plan.eventVars event)).1.zip values)) G H Q
        (g values)) (index : Nat) :
    (do
      let decoded ← enter stored index
      decoded.forM fun (name, value) => Run.assign name value
      f decoded : Run σ α).Simulates settings (Holding names pins) G H Q (do
        let decoded ← enter event index
        g (decoded.map (·.2))) := by
  apply ((steady_enter hshape index).weaken (fun _ _ h => h) (fun _ _ h => h) hkept).bind
  rintro found declared ⟨values, hlength, rfl, hvalues⟩
  rw [hvalues, hstored]
  have hcount : values.length = (Plan.eventVars event).length := by simp [hlength, Plan.eventVars]
  have hstorages : (((names.enter.declareAll (Plan.eventVars event)).1.zip values).map (·.1)) =
      (names.enter.declareAll (Plan.eventVars event)).1 :=
    List.map_fst_zip (by simp [Names.length_declareAll, hcount])
  apply simulates_assignAll hsound
  · exact fun new hnew =>
      (hsound.enter.declareAll_fresh hplain (hstorages ▸ List.mem_map_of_mem hnew)).1
  · rw [hstorages]
    exact hsound.enter.nodup_declareAll hplain
  · rwa [hstorages]
  · exact hlater values hcount

/-- A visit sets the parameters for the body and removes them behind it. In the frames the
body has a frame that begins with them. -/
theorem steady_visit {names inner : Names} (hsound : names.Sound)
    (hplain : ∀ declared ∈ Plan.eventVars event, '#' ∉ declared.1.toList)
    (hshape : event.SameShape stored)
    (hstored : stored.parameters.map (·.name) = (names.enter.declareAll (Plan.eventVars event)).1)
    {body : Run σ Unit} {framedBody : Run (Scoped σ) Unit}
    (hbody : Evaluates settings (names.enter.declareAll (Plan.eventVars event)).2 inner Eq body
      framedBody)
    {pins : List (String × Value)} (hpins : ∀ pin ∈ pins, ¬ inner.Issued pin.1) (index : Nat) :
    (visit stored body index).Steady settings (Holding names pins) Eq
      (Plan.Parameter.visit event framedBody index) := by
  have hadvances := hsound.enter.advances_declareAll hplain
  have hunissued (storage : String)
      (hstorage : storage ∈ (names.enter.declareAll (Plan.eventVars event)).1) :
      ¬ names.Issued storage := (hsound.enter.declareAll_fresh hplain hstorage).1
  have hapart : ∀ pin ∈ pins, pin.1 ∉ (names.enter.declareAll (Plan.eventVars event)).1 :=
    fun pin hpin hstorage => hpins pin hpin
      (hbody.advances.issued (hsound.enter.declareAll_fresh hplain hstorage).2)
  refine simulates_set settings hsound hplain hshape hstored hapart (fun _ _ h => h)
    (f := fun decoded => do
      let outcome ← body.attempt
      Run.erase (decoded.map (·.1))
      Run.ofExcept outcome)
    (g := fun values => Run.within (Binding.zip (Plan.eventVars event) values) framedBody)
    ?_ index
  intro values hcount
  have hstorages : (((names.enter.declareAll (Plan.eventVars event)).1.zip values).map (·.1)) =
      (names.enter.declareAll (Plan.eventVars event)).1 :=
    List.map_fst_zip (by simp [Names.length_declareAll, hcount])
  rw [hstorages]
  apply (hbody.within hadvances hcount hpins).erase
  · exact fun _ _ hholding => hholding.eraseAll hsound hunissued hapart
  · exact fun _ _ hholding => hholding.eraseAll hsound hunissued hapart

end LogEntryFilter

namespace Plan

theorem plain_eventVars {event : EventDecl} (hplain : Plain (event.parameters.map (·.name))) :
    ∀ var ∈ eventVars event, '#' ∉ var.1.toList := by
  rw [← plain_map_fst, eventVars, List.map_map]
  exact hplain

/-- The parameters of a compiled event have storage names, and are the same otherwise. -/
theorem Parameter.of_compileAll_ok {parameters : List Parameter} {names after : Names}
    {stored : List EventParameter}
    (hcompile : (Parameter.compileAll parameters).run names = .ok (stored, after)) :
    ∃ declared, Parameter.interpretAll parameters = .ok declared ∧
      declared.map (·.name) = parameters.map (·.name) ∧
      List.Forall₂ EventParameter.SameShape declared stored ∧
      (stored.map (·.name), after) =
        names.declareAll (declared.map fun parameter => (parameter.name, parameter.valueType)) := by
  induction parameters generalizing names stored with
  | nil =>
      obtain ⟨rfl, rfl⟩ := Compiler.of_pure_ok hcompile
      exact ⟨[], rfl, rfl, .nil, rfl⟩
  | cons parameter rest ih =>
      obtain ⟨first, middle, hfirst, hlater⟩ := Compiler.of_bind_ok hcompile
      obtain ⟨hdeclared, rfl⟩ := Compiler.of_ofExcept_ok hfirst
      obtain ⟨storage, next, hstorage, hlater⟩ := Compiler.of_bind_ok hlater
      obtain ⟨rfl, rfl⟩ := Compiler.of_declare_ok hstorage
      obtain ⟨others, last, hothers, hreturn⟩ := Compiler.of_bind_ok hlater
      obtain ⟨rfl, rfl⟩ := Compiler.of_pure_ok hreturn
      obtain ⟨declared, hinterpret, hnames, hshape, hpair⟩ := ih hothers
      have hname : first.name = parameter.name := by
        unfold EventParameter.ofDeclared at hdeclared
        cases htype : SolType.parse parameter.type with
        | error error =>
            rw [htype] at hdeclared
            cases hdeclared
        | ok type =>
            rw [htype] at hdeclared
            cases hdeclared
            rfl
      refine ⟨first :: declared, ?_, ?_, .cons ⟨rfl, rfl⟩ hshape, ?_⟩
      · rw [Parameter.interpretAll, hdeclared, hinterpret]
        rfl
      · rw [List.map_cons, List.map_cons, hname, hnames]
      · rw [List.map_cons, List.map_cons, Names.declareAll, hname, ← hpair]

end Plan

end ChainExtract
