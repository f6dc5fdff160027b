import ChainExtract.Abi.Event
import ChainExtract.Node.Client
import ChainExtract.Proofs.Abi.Values
import ChainExtract.Proofs.Typing.Conformance

/-! # Decoded values

What is decoded after a contract type becomes a value of the type that the compilation
gives to it. This covers the parameters of events, in topics and in data, and what the
client of a node answers to questions about contracts.
-/

namespace ChainExtract

namespace AbiReader

theorem forall_of_repeated {P : SolValue → Prop}
    {read : AbiReader → Except AbiError (SolValue × AbiReader)}
    (hread : ∀ reader value after, read reader = .ok (value, after) → P value) {count : Nat}
    {reader after : AbiReader} {values : List SolValue}
    (hvalues : repeated read count reader = .ok (values, after)) : ∀ value ∈ values, P value := by
  induction count generalizing reader values with
  | zero =>
      cases hvalues
      simp
  | succ count ih =>
      obtain ⟨⟨value, middle⟩, hvalue, hrest⟩ := exists_of_bind_ok hvalues
      obtain ⟨⟨later, last⟩, hlater, hreturn⟩ := exists_of_bind_ok hrest
      cases hreturn
      exact List.forall_mem_cons.mpr ⟨hread _ _ _ hvalue, ih hlater⟩

theorem exists_of_sequence {dynamic : Bool}
    {read : AbiReader → Except AbiError (List SolValue × AbiReader)} {reader after : AbiReader}
    {values : List SolValue} (hvalues : reader.sequence dynamic read = .ok (values, after)) :
    ∃ inner last, read inner = .ok (values, last) := by
  unfold sequence at hvalues
  split at hvalues
  · obtain ⟨⟨inner, next⟩, _, hrest⟩ := exists_of_bind_ok hvalues
    obtain ⟨⟨found, last⟩, hfound, hreturn⟩ := exists_of_bind_ok hrest
    cases hreturn
    exact ⟨inner, last, hfound⟩
  · obtain ⟨inner, _, hrest⟩ := exists_of_bind_ok hvalues
    obtain ⟨⟨found, last⟩, hfound, hreturn⟩ := exists_of_bind_ok hrest
    cases hreturn
    exact ⟨inner, last, hfound⟩

end AbiReader

namespace SolType

/-- What is read after a type is of the type that its values are turned into. -/
theorem conforms_decode : ∀ (type : SolType) {reader after : AbiReader} {value : SolValue},
    type.decode reader = .ok (value, after) → value.toValue.Conforms type.valueType
  | .bool, _, _, _, hdecode | .int _, _, _, _, hdecode | .uint _, _, _, _, hdecode
  | .fixedBytes _, _, _, _, hdecode | .address, _, _, _, hdecode | .function, _, _, _, hdecode
  | .bytes, _, _, _, hdecode | .string, _, _, _, hdecode => by
      rw [decode] at hdecode
      obtain ⟨_, _, hreturn⟩ := exists_of_bind_ok hdecode
      cases hreturn
      trivial
  | .array element, _, _, _, hdecode => by
      rw [decode] at hdecode
      obtain ⟨_, _, hrest⟩ := exists_of_bind_ok hdecode
      obtain ⟨⟨size, _⟩, _, hrest⟩ := exists_of_bind_ok hrest
      simp only at hrest
      split at hrest
      · cases hrest
        simp [SolValue.toValue, valueType, Value.conforms_list]
      · split at hrest
        · cases hrest
        · obtain ⟨_, _, hrest⟩ := exists_of_bind_ok hrest
          obtain ⟨⟨values, _⟩, hvalues, hreturn⟩ := exists_of_bind_ok hrest
          cases hreturn
          have hitems := AbiReader.forall_of_repeated (fun _ _ _ => conforms_decode element) hvalues
          simpa [SolValue.toValue, valueType, Value.conforms_list] using hitems
  | .fixedArray element _, _, _, _, hdecode => by
      rw [decode] at hdecode
      obtain ⟨⟨values, _⟩, hsequence, hreturn⟩ := exists_of_bind_ok hdecode
      cases hreturn
      obtain ⟨_, _, hvalues⟩ := AbiReader.exists_of_sequence hsequence
      have hitems := AbiReader.forall_of_repeated (fun _ _ _ => conforms_decode element) hvalues
      simpa [SolValue.toValue, valueType, Value.conforms_list] using hitems
  | .tuple _, _, _, _, hdecode => by
      rw [decode] at hdecode
      obtain ⟨_, _, hreturn⟩ := exists_of_bind_ok hdecode
      cases hreturn
      exact fun item _ => item.conforms_any

theorem conforms_decodeAll {types : List SolType} {reader after : AbiReader}
    {values : List SolValue} (hdecode : decodeAll types reader = .ok (values, after)) :
    ∀ pair ∈ types.zip values, pair.2.toValue.Conforms pair.1.valueType := by
  induction types generalizing reader values with
  | nil => simp
  | cons type types ih =>
      rw [decodeAll] at hdecode
      obtain ⟨⟨value, middle⟩, hvalue, hrest⟩ := exists_of_bind_ok hdecode
      obtain ⟨⟨later, last⟩, hlater, hreturn⟩ := exists_of_bind_ok hrest
      cases hreturn
      exact List.forall_mem_cons.mpr ⟨type.conforms_decode hvalue, ih hlater⟩

theorem decodeWith_ok {type : SolType} {bytes : Bytes}
    {read : AbiReader → Except AbiError (SolValue × AbiReader)} {value : SolValue}
    (hdecode : type.decodeWith bytes read = .ok value) :
    (type.isEmpty = true ∧ value = type.emptyValue) ∨
      ∃ reader after, read reader = .ok (value, after) := by
  unfold decodeWith at hdecode
  split at hdecode
  next hempty =>
    cases hdecode
    exact Or.inl ⟨hempty, rfl⟩
  next =>
    simp only at hdecode
    split at hdecode
    · cases hdecode
    · obtain ⟨⟨found, after⟩, hread, hreturn⟩ := exists_of_bind_ok hdecode
      cases hreturn
      exact Or.inr ⟨_, after, hread⟩

theorem conforms_decodeValue {type : SolType} {bytes : Bytes} {value : SolValue}
    (hdecode : type.decodeValue bytes = .ok value) : value.toValue.Conforms type.valueType := by
  rcases decodeWith_ok hdecode with ⟨hempty, rfl⟩ | ⟨reader, after, hread⟩
  · cases type with
    | array | fixedArray | tuple =>
        simp [emptyValue, SolValue.toValue, valueType, Value.conforms_list]
    | _ => simp [isEmpty] at hempty
  · exact type.conforms_decode hread

/-- The values of a parameter list, as far as they are there, are of the types of the
parameters. -/
theorem conforms_decodeSequence {types : List SolType} {bytes : Bytes} {value : SolValue}
    (hdecode : (tuple types).decodeSequence bytes = .ok value) :
    ∀ pair ∈ types.zip value.items, pair.2.toValue.Conforms pair.1.valueType := by
  rcases decodeWith_ok hdecode with ⟨_, rfl⟩ | ⟨reader, after, hread⟩
  · simp [emptyValue, SolValue.items]
  · obtain ⟨⟨values, last⟩, hvalues, hreturn⟩ := exists_of_bind_ok hread
    cases hreturn
    exact conforms_decodeAll hvalues

end SolType

theorem EventParameter.conforms_decodeTopic {parameter : EventParameter} {topic : Word}
    {value : Value} (hindexed : parameter.indexed = true)
    (hdecode : parameter.decodeTopic topic = .ok value) : value.Conforms parameter.valueType := by
  unfold decodeTopic at hdecode
  unfold valueType
  split at hdecode
  next hword =>
    simp only [hindexed, hword, Bool.not_true, Bool.and_false, Bool.false_eq_true, ↓reduceIte]
    split at hdecode
    next found hfound =>
      cases hdecode
      exact SolType.conforms_decodeValue hfound
    next => cases hdecode
  next hword =>
    cases hdecode
    simp [hindexed, hword, Value.Conforms]

namespace EventDecl

/-- Indexed parameters take values of their topics, the others values of the data. -/
theorem conforms_assign {event : EventDecl} {parameters : List EventParameter}
    {topics : List Word} {body : List SolValue} {decoded : List (String × Value)}
    (hbody : ∀ pair ∈ ((parameters.filter (!·.indexed)).map (·.type)).zip body,
      pair.2.toValue.Conforms pair.1.valueType)
    (hassign : event.assign parameters topics body = .ok decoded) :
    ∀ pair ∈ parameters.zip (decoded.map (·.2)), pair.2.Conforms pair.1.valueType := by
  induction parameters generalizing topics body decoded with
  | nil => simp
  | cons parameter rest ih =>
      cases hindexed : parameter.indexed with
      | true =>
          simp only [assign, hindexed, ↓reduceIte] at hassign
          simp only [List.filter_cons, hindexed, Bool.not_true, Bool.false_eq_true,
            ↓reduceIte] at hbody
          cases topics with
          | nil => cases hassign
          | cons topic topics =>
              obtain ⟨value, hvalue, hrest⟩ := exists_of_bind_ok hassign
              obtain ⟨later, hlater, hreturn⟩ := exists_of_bind_ok hrest
              cases hreturn
              exact List.forall_mem_cons.mpr
                ⟨EventParameter.conforms_decodeTopic hindexed hvalue, ih hbody hlater⟩
      | false =>
          simp only [assign, hindexed, Bool.false_eq_true, ↓reduceIte] at hassign
          simp only [List.filter_cons, hindexed, Bool.not_false, ↓reduceIte,
            List.map_cons] at hbody
          cases body with
          | nil => cases hassign
          | cons value body =>
              obtain ⟨later, hlater, hreturn⟩ := exists_of_bind_ok hassign
              cases hreturn
              obtain ⟨hfirst, hbody⟩ := List.forall_mem_cons.mp hbody
              refine List.forall_mem_cons.mpr ⟨?_, ih hbody hlater⟩
              simpa [EventParameter.valueType, hindexed] using hfirst

/-- The parameters of a log entry are of the types that they are declared with. -/
theorem conforms_decode {event : EventDecl} {topics : List Word} {data : Bytes}
    {decoded : List (String × Value)} (hdecode : event.decode topics data = .ok decoded) :
    ∀ pair ∈ event.parameters.zip (decoded.map (·.2)), pair.2.Conforms pair.1.valueType := by
  unfold decode at hdecode
  simp only at hdecode
  split at hdecode
  · cases hdecode
  · split at hdecode
    · cases hdecode
    next body hbody => exact conforms_assign (SolType.conforms_decodeSequence hbody) hdecode

end EventDecl

/-- What the client answers to questions about contracts is of the types that were asked for. -/
def Client.Conforming {σ : Type} (client : Client σ) : Prop :=
  ∀ query state values, (client.member query state).1 = .ok values →
    ∀ pair ∈ query.outputTypes.zip values, ∀ type, SolType.parse pair.1 = .ok type →
      pair.2.Conforms type.valueType

theorem SolType.conforms_of_mapM {names : List String} {types : List SolType}
    {items : List SolValue} (hparse : names.mapM parse = .ok types)
    (hitems : ∀ pair ∈ types.zip items, pair.2.toValue.Conforms pair.1.valueType) :
    ∀ pair ∈ names.zip (items.map SolValue.toValue), ∀ type, parse pair.1 = .ok type →
      pair.2.Conforms type.valueType := by
  induction names generalizing types items with
  | nil => simp
  | cons name names ih =>
      rw [List.mapM_cons] at hparse
      obtain ⟨first, hfirst, hrest⟩ := exists_of_bind_ok hparse
      obtain ⟨later, hlater, hreturn⟩ := exists_of_bind_ok hrest
      cases hreturn
      cases items with
      | nil => simp
      | cons item items =>
          obtain ⟨hitem, hitems⟩ := List.forall_mem_cons.mp hitems
          refine List.forall_mem_cons.mpr ⟨?_, ih hlater hitems⟩
          intro type htype
          obtain rfl : first = type := Except.ok.inj (hfirst.symm.trans htype)
          exact hitem

theorem MemberQuery.conforms_decodeResult {query : MemberQuery} {data : Bytes}
    {values : List Value} (hresult : query.decodeResult data = .ok values) :
    ∀ pair ∈ query.outputTypes.zip values, ∀ type, SolType.parse pair.1 = .ok type →
      pair.2.Conforms type.valueType := by
  simp only [decodeResult, returnTypes] at hresult
  split at hresult
  · cases hresult
  next types htypes =>
    split at hresult
    · cases hresult
    next result hdecode =>
      cases hresult
      rw [SolValue.toValues_eq_map]
      exact SolType.conforms_of_mapM htypes (SolType.conforms_decodeSequence hdecode)

/-- The client of a node decodes what comes back after the types that were asked for. -/
theorem Node.conforming_client {σ : Type} (node : Node σ) : node.client.Conforming := by
  intro query state values hanswer
  simp only [client, memberAt] at hanswer
  split at hanswer
  · cases hanswer
  · split at hanswer
    · cases hanswer
    · split at hanswer
      · cases hanswer
      · exact MemberQuery.conforms_decodeResult hanswer

end ChainExtract
