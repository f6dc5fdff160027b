import ChainExtract.Abi.Event
import ChainExtract.Proofs.Abi.Recovery

/-! # Values of events

An event is logged with a value for each of its parameters. Its topics and its data, taken
apart in the order of the declaration, give back the values and the hashes that stand for
some of them.
-/

namespace ChainExtract

/-- A parameter of an event with its value, and the hash that stands for the value where a
topic cannot hold it. -/
structure EventArgument where
  parameter : EventParameter
  value : SolValue
  hasType : SolValue.HasType parameter.type value
  hash : Word

namespace SolType

variable {type : SolType}

theorem isDynamic_of_isWord (hword : type.isWord = true) : type.isDynamic = false := by
  cases type <;> first | rfl | cases hword

theorem readers_of_isWord (hword : type.isWord = true) : type.readers = 0 := by
  cases type <;> first | rfl | cases hword

theorem Occupied.of_isWord (hword : type.isWord = true) : type.Occupied := by
  cases type <;> first | exact Nat.one_pos | cases hword

theorem length_encode_of_isWord (hword : type.isWord = true) {value : SolValue}
    (hvalue : SolValue.HasType type value) : value.encode.length = 32 := by
  cases type <;> cases value <;>
    simp_all [isWord, SolValue.HasType, SolValue.encode, FixedBytes.length_bytes]

end SolType

namespace EventArgument

/-- The topic of an indexed parameter. -/
def topic (argument : EventArgument) : Word :=
  if hword : argument.parameter.type.isWord = true then
    ⟨argument.value.encode, SolType.length_encode_of_isWord hword argument.hasType⟩
  else argument.hash

/-- The topics of the indexed parameters. -/
def topics (arguments : List EventArgument) : List Word :=
  (arguments.filter (·.parameter.indexed)).map topic

/-- The values of the other parameters. -/
def body (arguments : List EventArgument) : List SolValue :=
  (arguments.filter (!·.parameter.indexed)).map (·.value)

/-- The name of the parameter with what is known of its value. -/
def decoded (argument : EventArgument) : String × Value :=
  (argument.parameter.name,
    if argument.parameter.indexed && !argument.parameter.type.isWord then
      .bytes argument.hash.bytes
    else argument.value.toValue)

theorem decodeTopic_topic {argument : EventArgument}
    (hindexed : argument.parameter.indexed = true) :
    argument.parameter.decodeTopic argument.topic = .ok argument.decoded.2 := by
  unfold EventParameter.decodeTopic topic decoded
  by_cases hword : argument.parameter.type.isWord = true
  · have hread := SolType.decodeValue_encode argument.hasType (.of_isWord hword)
      (SolType.isDynamic_of_isWord hword)
      (by rw [SolType.readers_of_isWord hword]; exact Nat.zero_le _)
    simp [hword, hread]
  · simp [hword, hindexed]

theorem length_topics (arguments : List EventArgument) :
    (topics arguments).length = (arguments.map (·.parameter)).countP (·.indexed) := by
  rw [topics, List.length_map, List.countP_map, List.countP_eq_length_filter]
  rfl

/-- The values in the data are of the types of the parameters that are not indexed. -/
theorem hasTypes_body (arguments : List EventArgument) :
    SolValue.HasTypes (((arguments.map (·.parameter)).filter (!·.indexed)).map (·.type))
      (body arguments) := by
  unfold body
  induction arguments with
  | nil => trivial
  | cons argument arguments ih =>
      cases hindexed : argument.parameter.indexed with
      | true => simpa [hindexed] using ih
      | false => simpa [hindexed] using ⟨argument.hasType, ih⟩

/-- Topics and values are taken up in the order of the declaration. -/
theorem assign_arguments (event : EventDecl) (arguments : List EventArgument) :
    event.assign (arguments.map (·.parameter)) (topics arguments) (body arguments) =
      .ok (arguments.map decoded) := by
  unfold topics body
  -- each parameter takes from one of the two lists what its argument has put there first
  induction arguments with
  | nil => rfl
  | cons argument arguments ih =>
      cases hindexed : argument.parameter.indexed with
      | true =>
          have htopic := decodeTopic_topic hindexed
          simp only [List.map_cons, List.filter_cons, hindexed, ↓reduceIte, Bool.not_true,
            Bool.false_eq_true, EventDecl.assign, htopic, ih, bind, Except.bind, pure, Except.pure]
          rfl
      | false =>
          have hdecoded : argument.decoded =
              (argument.parameter.name, argument.value.toValue) := by simp [decoded, hindexed]
          simp only [List.map_cons, List.filter_cons, hindexed, ↓reduceIte, Bool.not_false,
            Bool.false_eq_true, EventDecl.assign, hdecoded, ih, bind, Except.bind, pure,
            Except.pure]

end EventArgument

namespace EventDecl

/-- Whether the values in the data of a log entry are read again from their encoding. -/
def BodyRecovered (event : EventDecl) (arguments : List EventArgument) : Prop :=
  event.bodyType.decodeSequence (SolValue.encodeParameters (EventArgument.body arguments)) =
    .ok (.tuple (EventArgument.body arguments))

/-- The values in the data are read again within the limits of the reader. -/
theorem bodyRecovered_of_readable {event : EventDecl} {arguments : List EventArgument}
    (hparameters : arguments.map (·.parameter) = event.parameters)
    (hreadable : SolType.Readable ((event.parameters.filter (!·.indexed)).map (·.type))
      (EventArgument.body arguments)) :
    event.BodyRecovered arguments := by
  have hbody := EventArgument.hasTypes_body arguments
  rw [hparameters] at hbody
  exact SolType.decodeSequence_encodeParameters hbody hreadable

theorem decode_eq_assign {event : EventDecl} {topics : List Word} {data : Bytes}
    {body : List SolValue} (htopics : topics.length = event.indexedCount + 1)
    (hdata : event.bodyType.decodeSequence data = .ok (.tuple body)) :
    event.decode topics data = event.assign event.parameters topics.tail body := by
  simp [decode, htopics, hdata, SolValue.items]

theorem decode_of_length_ne {event : EventDecl} {topics : List Word} (data : Bytes)
    (htopics : topics.length ≠ event.indexedCount + 1) :
    ∃ reason, event.decode topics data = .error (.decode event.name reason) := by
  unfold decode
  simp only [htopics, ne_eq, not_false_eq_true, ↓reduceIte, bind, Except.bind]
  exact ⟨_, rfl⟩

/-- What an event is logged with is decoded as the value or the hash of each parameter in turn,
if the values in the data are recovered, as they are within the limits of the reader. Other
numbers of topics are refused. -/
theorem decode_logged (event : EventDecl) :
    (∀ arguments : List EventArgument, arguments.map (·.parameter) = event.parameters →
      event.BodyRecovered arguments →
      event.decode (event.topic :: EventArgument.topics arguments)
        (SolValue.encodeParameters (EventArgument.body arguments)) =
          .ok (arguments.map (·.decoded))) ∧
    (∀ arguments : List EventArgument, arguments.map (·.parameter) = event.parameters →
      SolType.Readable ((event.parameters.filter (!·.indexed)).map (·.type))
        (EventArgument.body arguments) →
      event.BodyRecovered arguments) ∧
    ∀ topics data, topics.length ≠ event.indexedCount + 1 →
      ∃ reason, event.decode topics data = .error (.decode event.name reason) := by
  refine ⟨fun arguments hparameters hdata => ?_,
    fun arguments => bodyRecovered_of_readable,
    fun topics data htopics => decode_of_length_ne data htopics⟩
  have htopics : (event.topic :: EventArgument.topics arguments).length =
      event.indexedCount + 1 := by
    rw [List.length_cons, EventArgument.length_topics, hparameters, indexedCount]
  rw [decode_eq_assign htopics hdata, ← hparameters]
  exact EventArgument.assign_arguments event arguments

/-- An event with parameters of all kinds: in a topic, in the data, and known by a hash. -/
def settled : EventDecl where
  name := "Settled"
  parameters := [⟨"payer", "address", true, .address⟩, ⟨"memo", "bytes", false, .bytes⟩,
    ⟨"name", "string", true, .string⟩, ⟨"amount", "uint256", false, .uint 256⟩]

def settledArguments : List EventArgument :=
  [⟨⟨"payer", "address", true, .address⟩, .address (.ofNat 20 7), trivial, .zero 32⟩,
    ⟨⟨"memo", "bytes", false, .bytes⟩, .bytes [1, 2, 3], trivial, .zero 32⟩,
    ⟨⟨"name", "string", true, .string⟩, .string "rent", trivial, .ofNat 32 99⟩,
    ⟨⟨"amount", "uint256", false, .uint 256⟩, .uint 500 256, ⟨rfl, by decide⟩, .zero 32⟩]

theorem decode_logged_settled :
    settledArguments.map (·.parameter) = settled.parameters ∧ settled.BodyRecovered settledArguments ∧
    settled.decode (settled.topic :: EventArgument.topics settledArguments)
        (SolValue.encodeParameters (EventArgument.body settledArguments)) =
      .ok [("payer", .addr (.ofNat 20 7)), ("memo", .bytes [1, 2, 3]),
        ("name", .bytes (Bytes.ofNat 32 99)), ("amount", .int 500)] ∧
    ∃ reason, settled.decode [settled.topic] [] = .error (.decode "Settled" reason) := by
  have hparameters : settledArguments.map (·.parameter) = settled.parameters := rfl
  have hreadable : SolType.Readable ((settled.parameters.filter (!·.indexed)).map (·.type))
      (EventArgument.body settledArguments) := by
    refine ⟨?_, by decide, by decide +kernel⟩
    simp [settled, SolType.Occupied, SolType.Throughout, SolType.minWords]
  have hrecovered := (decode_logged settled).2.1 settledArguments hparameters hreadable
  exact ⟨hparameters, hrecovered, (decode_logged settled).1 settledArguments hparameters hrecovered,
    (decode_logged settled).2.2 [settled.topic] [] (by decide)⟩

end EventDecl

end ChainExtract
