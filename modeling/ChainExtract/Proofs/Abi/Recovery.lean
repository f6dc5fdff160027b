import ChainExtract.Abi.Decoding
import ChainExtract.Proofs.Abi.Layout
import ChainExtract.Proofs.Utf8

/-! # Recovery of encoded values

The values of parameters are read again from their encoding, within the limits of the reader:
a nesting that it follows, and an encoding whose offsets it reads in full.
-/

namespace ChainExtract

/-! ## Reading what stands first -/

namespace AbiReader

variable {area bytes : Bytes} {offset depth : Nat}

theorem word_append (hlength : bytes.length = 32) (rest : Bytes) :
    word ⟨area, bytes ++ rest, depth⟩ = .ok (⟨bytes, hlength⟩, ⟨area, rest, depth⟩) := by
  have htake : (bytes ++ rest).take 32 = bytes := List.take_left' hlength
  have hdrop : (bytes ++ rest).drop 32 = rest := List.drop_left' hlength
  have hword : ((bytes ++ rest).take 32).length = 32 := by rw [htake, hlength]
  rw [word, dif_pos hword]
  simp only [htake, hdrop]

theorem offset_append {n : Nat} (hn : n < Nat.pow 2 64) (rest : Bytes) :
    AbiReader.offset ⟨area, Bytes.ofNat 32 n ++ rest, depth⟩ =
      .ok (n, ⟨area, rest, depth⟩) := by
  have hlast : (Bytes.ofNat 32 n).drop 24 = Bytes.ofNat 8 n := by
    rw [show (32 : Nat) = 24 + 8 from rfl, Bytes.ofNat_add]
    exact List.drop_left' (Bytes.length_ofNat 24 _)
  have hvalue : (Bytes.ofNat 8 n).toNat = n := by
    rw [Bytes.toNat_ofNat]
    exact Nat.mod_eq_of_lt hn
  simp only [AbiReader.offset, word_append (Bytes.length_ofNat 32 n), bind, Except.bind, hlast,
    hvalue, pure, Except.pure]

/-- An offset opens the area that starts with what stands there. -/
theorem exists_indirection (hstand : bytes.StandAt area offset)
    (hdepth : depth < AbiError.depthLimit) (rest : Bytes) :
    ∃ after, bytes.StandAt (bytes ++ after) 0 ∧
      indirection ⟨area, Bytes.ofNat 32 offset ++ rest, depth⟩ =
        .ok (⟨bytes ++ after, bytes ++ after, depth + 1⟩, ⟨area, rest, depth⟩) := by
  obtain ⟨after, hdrop, hfirst⟩ := hstand.exists_drop
  have hoffset : offset < Nat.pow 2 64 := Nat.lt_of_le_of_lt hstand.le_length hstand.1
  refine ⟨after, hfirst, ?_⟩
  simp only [indirection, offset_append hoffset, bind, Except.bind, Nat.not_le.mpr hdepth,
    Nat.not_lt.mpr hstand.le_length, ↓reduceIte, hdrop, pure, Except.pure]

/-- An offset opens the area of a count, in which what is counted comes next. -/
theorem exists_counted {count : Nat} (hstand : (Bytes.ofNat 32 count ++ bytes).StandAt area offset)
    (hcount : count < Nat.pow 2 64) (hdepth : depth < AbiError.depthLimit) (rest : Bytes) :
    ∃ inner after, bytes.StandAt (bytes ++ after) 0 ∧
      indirection ⟨area, Bytes.ofNat 32 offset ++ rest, depth⟩ =
        .ok (inner, ⟨area, rest, depth⟩) ∧
      inner.offset = .ok (count, ⟨inner.area, bytes ++ after, depth + 1⟩) := by
  obtain ⟨after, hfirst, hopen⟩ := exists_indirection hstand hdepth rest
  have hroom : (bytes ++ after).length < Nat.pow 2 64 := by
    have harea := hfirst.1
    rw [List.append_assoc, List.length_append] at harea
    omega
  refine ⟨_, after, Bytes.StandAt.zero hroom, hopen, ?_⟩
  simp only [List.append_assoc, offset_append hcount]

theorem packed_append {content : Bytes}
    (hstand : (SolValue.encodeBytes content).StandAt area offset)
    (hdepth : depth < AbiError.depthLimit) (rest : Bytes) :
    packed ⟨area, Bytes.ofNat 32 offset ++ rest, depth⟩ = .ok (content, ⟨area, rest, depth⟩) := by
  have hsize : content.length < Nat.pow 2 64 := by
    have hroom := hstand.length_lt
    rw [SolValue.length_encodeBytes] at hroom
    omega
  rw [SolValue.encodeBytes, List.append_assoc] at hstand
  obtain ⟨inner, after, -, hopen, hcount⟩ := exists_counted hstand hsize hdepth rest
  simp only [packed, hopen, hcount, bind, Except.bind, List.append_assoc, List.length_append,
    Nat.not_lt.mpr (Nat.le_add_right _ _), ↓reduceIte, List.take_left, pure, Except.pure]

theorem repeated_eq_decodeAll (element : SolType) (size : Nat) (reader : AbiReader) :
    repeated (fun reader => element.decode reader) size reader =
      SolType.decodeAll (List.replicate size element) reader := by
  induction size generalizing reader with
  | zero => rfl
  | succ size ih => simp only [repeated, List.replicate_succ, SolType.decodeAll, ih]

end AbiReader

/-! ## Reading by types -/

namespace SolType

mutual

/-- The number of readers that reading values of the type nests at most. -/
def readers : SolType → Nat
  | array element => 2 + element.readers
  | fixedArray element _ => 1 + element.readers
  | tuple components => 1 + mostReaders components
  | bytes | string => 1
  | bool | int _ | uint _ | fixedBytes _ | address | function => 0

def mostReaders : List SolType → Nat
  | [] => 0
  | type :: types => max type.readers (mostReaders types)

end

theorem mostReaders_replicate_le (element : SolType) (size : Nat) :
    mostReaders (List.replicate size element) ≤ element.readers := by
  induction size with
  | zero => exact Nat.zero_le _
  | succ size ih => exact Nat.max_le.mpr ⟨Nat.le_refl _, ih⟩

/-- Whether each value of the type is read again from its part of an encoding. -/
def Recovered (type : SolType) : Prop :=
  ∀ (value : SolValue) (area : Bytes) (offset depth : Nat), SolValue.HasType type value →
    (value.isDynamic = true → value.encode.StandAt area offset) →
    depth + type.readers ≤ AbiError.depthLimit → ∀ rest,
    type.decode ⟨area, value.part.head offset ++ rest, depth⟩ = .ok (value, ⟨area, rest, depth⟩)

theorem Recovered.replicate {element : SolType} (helement : element.Recovered) (size : Nat) :
    ∀ type ∈ List.replicate size element, type.Recovered :=
  List.forall_mem_replicate.mpr (Or.inr helement)

/-- Components are read one after the other, each from its head and its tail. -/
theorem decodeAll_parts {types : List SolType} (hrecovered : ∀ type ∈ types, type.Recovered)
    {items : List SolValue} (hitems : SolValue.HasTypes types items) {area : Bytes}
    {offset depth : Nat}
    (hstand : SolValue.anyDynamic items = true →
      (EncodedPart.tails (SolValue.parts items)).StandAt area offset)
    (hdepth : depth + mostReaders types ≤ AbiError.depthLimit) (rest : Bytes) :
    decodeAll types ⟨area, EncodedPart.heads offset (SolValue.parts items) ++ rest, depth⟩ =
      .ok (items, ⟨area, rest, depth⟩) := by
  -- the area stays, and the offset of the tails moves on with each item
  induction types generalizing items offset with
  | nil =>
      cases items with
      | nil => rfl
      | cons => exact hitems.elim
  | cons type types ih =>
      cases items with
      | nil => exact hitems.elim
      | cons item items =>
          obtain ⟨hfirst, hlater⟩ := List.forall_mem_cons.mp hrecovered
          rw [mostReaders] at hdepth
          rw [SolValue.anyDynamic, Bool.or_eq_true, SolValue.parts_cons, EncodedPart.tails_cons]
            at hstand
          have hitem : item.isDynamic = true → item.encode.StandAt area offset := by
            intro hdynamic
            have htail := (hstand (Or.inl hdynamic)).left
            rwa [EncodedPart.tail, SolValue.part, if_pos hdynamic] at htail
          have hread := hfirst item area offset depth hitems.1 hitem (by omega)
          have hrest := ih hlater hitems.2 (fun hdynamic => (hstand (Or.inr hdynamic)).right)
            (by omega)
          simp only [decodeAll, SolValue.parts_cons, EncodedPart.heads_cons, List.append_assoc,
            hread, hrest, bind, Except.bind, pure, Except.pure]

/-- Components that start an area are read up to their tails. -/
theorem decodeAll_join {types : List SolType} (hrecovered : ∀ type ∈ types, type.Recovered)
    {items : List SolValue} (hitems : SolValue.HasTypes types items) {area : Bytes} {depth : Nat}
    (hstand : SolValue.anyDynamic items = true →
      (EncodedPart.join (SolValue.parts items)).StandAt area 0)
    (hdepth : depth + mostReaders types ≤ AbiError.depthLimit) (after : Bytes) :
    decodeAll types ⟨area, EncodedPart.join (SolValue.parts items) ++ after, depth⟩ =
      .ok (items, ⟨area, EncodedPart.tails (SolValue.parts items) ++ after, depth⟩) := by
  rw [EncodedPart.join, List.append_assoc]
  refine decodeAll_parts hrecovered hitems (fun hdynamic => ?_) hdepth _
  have htails := (hstand hdynamic).right
  rwa [EncodedPart.length_heads, Nat.zero_add] at htails

/-- A sequence whose length its type fixes is read in place or behind an offset. -/
theorem sequence_parts {types : List SolType} (hrecovered : ∀ type ∈ types, type.Recovered)
    {items : List SolValue} (hitems : SolValue.HasTypes types items) {area : Bytes}
    {offset depth : Nat}
    (hstand : SolValue.anyDynamic items = true →
      (EncodedPart.join (SolValue.parts items)).StandAt area offset)
    (hdepth : depth + (1 + mostReaders types) ≤ AbiError.depthLimit) (rest : Bytes) :
    AbiReader.sequence
        ⟨area, EncodedPart.head offset
          ⟨SolValue.anyDynamic items, EncodedPart.join (SolValue.parts items)⟩ ++ rest, depth⟩
        (SolValue.anyDynamic items) (fun inner => decodeAll types inner) =
      .ok (items, ⟨area, rest, depth⟩) := by
  have hopen : depth < AbiError.depthLimit := by omega
  have hinner : depth + 1 + mostReaders types ≤ AbiError.depthLimit := by omega
  cases hdynamic : SolValue.anyDynamic items with
  | true =>
      obtain ⟨after, hfirst, hindirection⟩ :=
        AbiReader.exists_indirection (hstand hdynamic) hopen rest
      have hread := decodeAll_join hrecovered hitems (fun _ => hfirst) hinner after
      simp only [AbiReader.sequence, EncodedPart.head, ↓reduceIte, hindirection, bind, Except.bind,
        hread, pure, Except.pure]
  | false =>
      have hstatic (area : Bytes) : SolValue.anyDynamic items = true →
          (EncodedPart.join (SolValue.parts items)).StandAt area 0 := by simp [hdynamic]
      have hread (area : Bytes) := decodeAll_join hrecovered hitems (hstatic area) hinner rest
      rw [SolValue.tails_parts_eq_nil hdynamic, List.nil_append] at hread
      simp only [AbiReader.sequence, EncodedPart.head, AbiReader.nested, Nat.not_le.mpr hopen,
        Bool.false_eq_true, ↓reduceIte, bind, Except.bind, hread, pure, Except.pure]

/-- A type that fills a word is read word by word. -/
theorem recovered_of_word {type : SolType} (build : Word → SolValue)
    (hdecode : ∀ reader, type.decode reader = (do
      let (word, reader) ← reader.word
      return (build word, reader)))
    (hstatic : type.isDynamic = false)
    (hencode : ∀ value, SolValue.HasType type value →
      ∃ hlength : value.encode.length = 32, build ⟨value.encode, hlength⟩ = value) :
    type.Recovered := by
  intro value area offset depth hvalue _ _ rest
  obtain ⟨hlength, hbuild⟩ := hencode value hvalue
  have hhead : value.part.head offset = value.encode := by
    rw [EncodedPart.head, SolValue.part, hvalue.isDynamic_eq, hstatic]
    rfl
  simp only [hdecode, hhead, AbiReader.word_append hlength, bind, Except.bind, hbuild, pure,
    Except.pure]

/-- A type of byte strings is read behind an offset. -/
theorem recovered_of_packed {type : SolType} (build : Bytes → SolValue)
    (hdecode : ∀ reader, type.decode reader = (do
      let (content, reader) ← reader.packed
      return (build content, reader)))
    (hdynamic : type.isDynamic = true) (hreaders : type.readers = 1)
    (hencode : ∀ value, SolValue.HasType type value →
      ∃ content, value.encode = SolValue.encodeBytes content ∧ build content = value) :
    type.Recovered := by
  intro value area offset depth hvalue hstand hdepth rest
  have hbehind : value.isDynamic = true := hvalue.isDynamic_eq.trans hdynamic
  obtain ⟨content, hcontent, hbuild⟩ := hencode value hvalue
  have hplace := hstand hbehind
  have hhead : value.part.head offset = Bytes.ofNat 32 offset := if_pos hbehind
  rw [hcontent] at hplace
  rw [hreaders] at hdepth
  simp only [hdecode, hhead, AbiReader.packed_append hplace hdepth, bind, Except.bind, hbuild,
    pure, Except.pure]

/-- A type of sequences is read by the types of their components. -/
theorem recovered_of_sequence {type : SolType} {types : List SolType}
    (build : List SolValue → SolValue) (hrecovered : ∀ type ∈ types, type.Recovered)
    (hdecode : ∀ reader, type.decode reader = (do
      let (values, reader) ← reader.sequence (anyDynamic types) fun inner => decodeAll types inner
      return (build values, reader)))
    (hreaders : 1 + mostReaders types ≤ type.readers)
    (hencode : ∀ value, SolValue.HasType type value → ∃ items, SolValue.HasTypes types items ∧
      value.part = ⟨SolValue.anyDynamic items, EncodedPart.join (SolValue.parts items)⟩ ∧
        build items = value) :
    type.Recovered := by
  intro value area offset depth hvalue hstand hdepth rest
  obtain ⟨items, hitems, hpart, hbuild⟩ := hencode value hvalue
  have hdynamic : SolValue.anyDynamic items = anyDynamic types :=
    hitems.anyDynamic_eq fun _ _ _ hitem => hitem.isDynamic_eq
  have hplace : SolValue.anyDynamic items = true →
      (EncodedPart.join (SolValue.parts items)).StandAt area offset := by
    intro hbehind
    have hvalueDynamic : value.isDynamic = SolValue.anyDynamic items :=
      congrArg EncodedPart.inTail hpart
    have hbytes : value.encode = EncodedPart.join (SolValue.parts items) :=
      congrArg EncodedPart.bytes hpart
    rw [← hbytes]
    exact hstand (hvalueDynamic.trans hbehind)
  have hread := sequence_parts hrecovered hitems hplace
    (Nat.le_trans (Nat.add_le_add_left hreaders depth) hdepth) rest
  rw [hdynamic] at hread
  simp only [hdecode, hpart, hdynamic, hread, bind, Except.bind, hbuild, pure, Except.pure]

/-- The word of a signed number is read with the sign. -/
theorem signed_ofNat {value : Int} (hlow : -(Nat.pow 2 255 : Int) ≤ value)
    (hhigh : value < Nat.pow 2 255) :
    signed (.ofNat 32 (value % Nat.pow 2 256).toNat) = value := by
  have htwice : (Nat.pow 2 256 : Int) = 2 * Nat.pow 2 255 := by decide
  have hless : value % Nat.pow 2 256 < Nat.pow 2 256 := Int.emod_lt_of_pos value (by omega)
  have hword : (FixedBytes.ofNat 32 (value % Nat.pow 2 256).toNat).toNat =
      (value % Nat.pow 2 256).toNat := Bytes.toNat_ofNat_word (by omega)
  unfold signed
  rw [hword]
  by_cases hnegative : value < 0
  · have hmod : value % Nat.pow 2 256 = value + Nat.pow 2 256 := by
      rw [← Int.add_emod_right]
      exact Int.emod_eq_of_lt (by omega) (by omega)
    rw [hmod, if_neg (by omega)]
    omega
  · have hmod : value % Nat.pow 2 256 = value := Int.emod_eq_of_lt (by omega) (by omega)
    rw [hmod, if_pos (by omega)]
    omega

theorem recovered_bool : Recovered bool := by
  refine recovered_of_word (fun word => .bool (word.toNat != 0))
    (fun _ => rfl) rfl fun value hvalue => ?_
  cases value with
  | bool value =>
      exact ⟨Bytes.length_ofNat 32 _, congrArg SolValue.bool (by cases value <;> decide)⟩
  | _ => exact hvalue.elim

theorem recovered_int (bits : Nat) : Recovered (int bits) := by
  refine recovered_of_word (fun word => .int (signed word) bits)
    (fun _ => rfl) rfl fun value hvalue => ?_
  cases value with
  | int value _ =>
      obtain ⟨rfl, hlow, hhigh⟩ := hvalue
      exact ⟨Bytes.length_ofNat 32 _, congrArg (SolValue.int · _) (signed_ofNat hlow hhigh)⟩
  | _ => exact hvalue.elim

theorem recovered_uint (bits : Nat) : Recovered (uint bits) := by
  refine recovered_of_word (fun word => .uint word.toNat bits)
    (fun _ => rfl) rfl fun value hvalue => ?_
  cases value with
  | uint value _ =>
      obtain ⟨rfl, hroom⟩ := hvalue
      exact ⟨Bytes.length_ofNat 32 _,
        congrArg (SolValue.uint · _) (Bytes.toNat_ofNat_word hroom)⟩
  | _ => exact hvalue.elim

theorem recovered_fixedBytes (size : Nat) : Recovered (fixedBytes size) := by
  refine recovered_of_word (fun word => .fixedBytes word size)
    (fun _ => rfl) rfl fun value hvalue => ?_
  cases value with
  | fixedBytes word _ =>
      obtain ⟨rfl, -⟩ := hvalue
      exact ⟨word.length_bytes, rfl⟩
  | _ => exact hvalue.elim

theorem recovered_address : Recovered address := by
  refine recovered_of_word (fun word => .address (.ofNat 20 word.toNat))
    (fun _ => rfl) rfl fun value hvalue => ?_
  cases value with
  | address value =>
      have hnumber : (Bytes.ofNat 12 0 ++ value.bytes).toNat = value.bytes.toNat := by
        rw [Bytes.toNat_append, Bytes.toNat_ofNat, Nat.zero_mod, Nat.mul_zero, Nat.zero_add]
      have hbytes := Bytes.ofNat_toNat value.bytes
      rw [value.length_bytes] at hbytes
      refine ⟨by simp [SolValue.encode, value.length_bytes], congrArg SolValue.address ?_⟩
      ext1
      exact (congrArg (Bytes.ofNat 20) hnumber).trans hbytes
  | _ => exact hvalue.elim

theorem recovered_function : Recovered function := by
  refine recovered_of_word (fun word => .function (.padRight 24 word.bytes))
    (fun _ => rfl) rfl fun value hvalue => ?_
  cases value with
  | function value =>
      refine ⟨by simp [SolValue.encode, value.length_bytes], congrArg SolValue.function ?_⟩
      ext1
      simp [FixedBytes.padRight, Bytes.padRight, SolValue.encode, value.length_bytes,
        List.take_left' value.length_bytes]
  | _ => exact hvalue.elim

theorem recovered_bytes : Recovered bytes := by
  refine recovered_of_packed .bytes (fun _ => rfl) rfl rfl fun value hvalue => ?_
  cases value with
  | bytes content => exact ⟨content, rfl, rfl⟩
  | _ => exact hvalue.elim

theorem recovered_string : Recovered string := by
  refine recovered_of_packed (fun content => .string (Utf8.decodeLossy content))
    (fun _ => rfl) rfl rfl fun value hvalue => ?_
  cases value with
  | string text => exact ⟨Utf8.encode text, rfl, congrArg _ (Utf8.decodeLossy_encode text)⟩
  | _ => exact hvalue.elim

theorem recovered_fixedArray {element : SolType} (helement : element.Recovered) (size : Nat) :
    Recovered (fixedArray element size) := by
  refine recovered_of_sequence .fixedArray (helement.replicate size) (fun reader => ?_) ?_
    fun value hvalue => ?_
  · simp only [decode, anyDynamic_replicate, AbiReader.repeated_eq_decodeAll]
  · rw [readers]
    exact Nat.add_le_add_left (mostReaders_replicate_le element size) 1
  · cases value with
    | fixedArray items => exact ⟨items, SolValue.hasTypes_replicate_iff.mpr hvalue, rfl, rfl⟩
    | _ => exact hvalue.elim

theorem recovered_tuple {components : List SolType}
    (hcomponents : ∀ type ∈ components, type.Recovered) : Recovered (tuple components) := by
  refine recovered_of_sequence .tuple hcomponents (fun _ => rfl) (Nat.le_refl _)
    fun value hvalue => ?_
  cases value with
  | tuple items => exact ⟨items, hvalue, rfl, rfl⟩
  | _ => exact hvalue.elim

theorem recovered_array {element : SolType} (helement : element.Recovered)
    (hwords : 0 < element.minWords) : Recovered (array element) := by
  intro value area offset depth hvalue hstand hdepth rest
  cases value with
  | array items =>
      have hitems := SolValue.hasTypes_replicate_iff.mpr ⟨rfl, hvalue⟩
      have htypes := helement.replicate items.length
      have hmost := mostReaders_replicate_le element items.length
      rw [readers] at hdepth
      have houter : depth < AbiError.depthLimit := by omega
      have hinner : ¬ AbiError.depthLimit ≤ depth + 1 := by omega
      have hroom := SolValue.length_mul_minWords_le (fun _ hitem => hitem.minWords_le) hvalue
      have hcount : items.length < Nat.pow 2 64 := by
        have hless := Nat.le_mul_of_pos_right items.length hwords
        have hencoded := (hstand rfl).length_lt
        rw [SolValue.encode, List.length_append] at hencoded
        omega
      obtain ⟨inner, after, hfirst, hopen, hread⟩ :=
        AbiReader.exists_counted (hstand rfl) hcount houter rest
      have hall := decodeAll_join htypes hitems (fun _ => hfirst)
        (show depth + 1 + 1 + _ ≤ _ by omega) after
      -- the items have the room that is asked for before any of them is read
      have henough : ¬ (EncodedPart.join (SolValue.parts items) ++ after).length / 32 <
          element.minWords * items.length := by
        rw [List.length_append, Nat.mul_comm]
        omega
      have hhead : (SolValue.array items).part.head offset = Bytes.ofNat 32 offset := rfl
      rw [hhead, decode]
      simp only [hopen, hread, bind, Except.bind]
      by_cases hempty : items.length = 0
      · obtain rfl := List.length_eq_zero_iff.mp hempty
        rfl
      · simp only [hempty, ↓reduceIte, AbiReader.remainingWords, henough, AbiReader.nested, hinner,
          AbiReader.repeated_eq_decodeAll, hall, pure, Except.pure]
  | _ => exact hvalue.elim

/-- Each value of a type in the type takes a word at least. -/
def Occupied (type : SolType) : Prop := type.Throughout (0 < ·.minWords)

theorem Occupied.isEmpty_eq {type : SolType} (htype : type.Occupied) : type.isEmpty = false := by
  induction type using SolType.induction with
  | array element ih => exact ih htype.2
  | fixedArray element size ih =>
      have hsize : size ≠ 0 := by
        rintro rfl
        simpa [minWords] using htype.1
      simp [isEmpty, hsize, ih htype.2]
  | tuple components ih =>
      have hcomponents := throughoutAll_iff.mp htype.2
      cases components with
      | nil => exact absurd htype.1 (by simp [minWords, sumMinWords])
      | cons type types =>
          have htype := ih type List.mem_cons_self (hcomponents type List.mem_cons_self)
          rw [isEmpty, allEmpty, htype, Bool.false_and]
  | _ => rfl

/-- The values of a type are recovered, unless there are some that take no room. -/
theorem Occupied.recovered {type : SolType} (htype : type.Occupied) : type.Recovered := by
  induction type using SolType.induction with
  | bool => exact recovered_bool
  | int bits => exact recovered_int bits
  | uint bits => exact recovered_uint bits
  | fixedBytes size => exact recovered_fixedBytes size
  | address => exact recovered_address
  | function => exact recovered_function
  | bytes => exact recovered_bytes
  | string => exact recovered_string
  | array element ih => exact recovered_array (ih htype.2) htype.2.self
  | fixedArray element size ih => exact recovered_fixedArray (ih htype.2) size
  | tuple components ih =>
      have hcomponents := throughoutAll_iff.mp htype.2
      exact recovered_tuple fun type hmem => ih type hmem (hcomponents type hmem)

/-- What the reader asks of the values of parameters, besides their types, to read them again. -/
structure Readable (types : List SolType) (values : List SolValue) : Prop where
  occupied : ∀ type ∈ types, type.Occupied
  readers_le : mostReaders types ≤ AbiError.depthLimit
  length_lt : (SolValue.encodeParameters values).length < Nat.pow 2 64

/-- The values of parameters are read again from their encoding. -/
theorem decodeSequence_encodeParameters {types : List SolType} {values : List SolValue}
    (hvalues : SolValue.HasTypes types values) (hreadable : Readable types values) :
    (tuple types).decodeSequence (SolValue.encodeParameters values) = .ok (.tuple values) := by
  have hrecovered type (hmem : type ∈ types) := (hreadable.occupied type hmem).recovered
  have hstand : (EncodedPart.join (SolValue.parts values)).StandAt
      (SolValue.encodeParameters values) 0 :=
    ⟨hreadable.length_lt, [], [], (List.append_nil _).symm, rfl⟩
  have hread := decodeAll_join hrecovered hvalues (fun _ => hstand)
    (show 0 + _ ≤ _ by rw [Nat.zero_add]; exact hreadable.readers_le) []
  have hwords := hvalues.sumMinWords_le fun _ _ _ hitem => hitem.minWords_le
  have henough : ¬ (SolValue.encodeParameters values).length / 32 < sumMinWords types := by
    rw [SolValue.encodeParameters]
    omega
  rw [List.append_nil, List.append_nil] at hread
  cases types with
  | nil =>
      obtain rfl := List.length_eq_zero_iff.mp hvalues.length_eq
      rfl
  | cons type later =>
      have hfilled : (tuple (type :: later)).isEmpty = false := by
        rw [isEmpty, allEmpty, (hreadable.occupied type List.mem_cons_self).isEmpty_eq,
          Bool.false_and]
      rw [SolValue.encodeParameters] at henough hread ⊢
      simp only [decodeSequence, decodeWith, hfilled, Bool.false_eq_true, ↓reduceIte,
        AbiReader.remainingWords, AbiReader.ofBytes, minWords, henough, hread, bind, Except.bind,
        pure, Except.pure]

/-- A static value is read again from its encoding alone. -/
theorem decodeValue_encode {type : SolType} {value : SolValue}
    (hvalue : SolValue.HasType type value) (htype : type.Occupied)
    (hstatic : type.isDynamic = false) (hreaders : type.readers ≤ AbiError.depthLimit) :
    type.decodeValue value.encode = .ok value := by
  have hinPlace : value.isDynamic = false := hvalue.isDynamic_eq.trans hstatic
  have hread := htype.recovered value value.encode 0 0 hvalue (by simp [hinPlace])
    (by rwa [Nat.zero_add]) []
  have henough : ¬ value.encode.length / 32 < type.minWords := by
    have hwords := hvalue.minWords_le
    omega
  rw [List.append_nil, EncodedPart.head, SolValue.part, hinPlace] at hread
  simp only [Bool.false_eq_true, ↓reduceIte] at hread
  simp only [decodeValue, decodeWith, htype.isEmpty_eq, Bool.false_eq_true, ↓reduceIte,
    AbiReader.remainingWords, AbiReader.ofBytes, henough, hread, bind, Except.bind, pure,
    Except.pure]

end SolType

end ChainExtract
