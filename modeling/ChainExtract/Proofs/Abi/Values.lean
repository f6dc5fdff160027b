import ChainExtract.Abi.Conversion
import Mathlib.Tactic.Common

/-! # Values of contract types

Which contract values a type has, and conditions that hold throughout a type, as that of the
sizes that named types have.
-/

namespace ChainExtract

theorem exists_of_bind_ok {ε α β : Type} {x : Except ε α} {f : α → Except ε β} {result : β}
    (hbind : (x >>= f) = .ok result) : ∃ first, x = .ok first ∧ f first = .ok result := by
  cases x with
  | error => cases hbind
  | ok first => exact ⟨first, rfl, hbind⟩

namespace SolType

/-- Induction on a type, with the components of a tuple all at once. -/
@[elab_as_elim]
theorem induction {motive : SolType → Prop} (bool : motive bool)
    (int : ∀ bits, motive (int bits)) (uint : ∀ bits, motive (uint bits))
    (fixedBytes : ∀ size, motive (fixedBytes size)) (address : motive address)
    (function : motive function) (bytes : motive bytes) (string : motive string)
    (array : ∀ element, motive element → motive (array element))
    (fixedArray : ∀ element size, motive element → motive (fixedArray element size))
    (tuple : ∀ components, (∀ type ∈ components, motive type) → motive (tuple components))
    (type : SolType) : motive type :=
  SolType.rec (motive_2 := fun types => ∀ type ∈ types, motive type)
    bool int uint fixedBytes address function bytes string array fixedArray tuple
    (fun _ hnil => absurd hnil List.not_mem_nil)
    (fun _ _ hfirst hrest => List.forall_mem_cons.mpr ⟨hfirst, hrest⟩) type

mutual

/-- Whether a condition holds of a type and of all types in it. -/
def Throughout (P : SolType → Prop) : SolType → Prop
  | bool => P bool
  | int bits => P (int bits)
  | uint bits => P (uint bits)
  | fixedBytes size => P (fixedBytes size)
  | address => P address
  | function => P function
  | bytes => P bytes
  | string => P string
  | array element => P (array element) ∧ element.Throughout P
  | fixedArray element size => P (fixedArray element size) ∧ element.Throughout P
  | tuple components => P (tuple components) ∧ ThroughoutAll P components

def ThroughoutAll (P : SolType → Prop) : List SolType → Prop
  | [] => True
  | type :: types => type.Throughout P ∧ ThroughoutAll P types

end

@[simp] theorem throughoutAll_iff {P : SolType → Prop} {types : List SolType} :
    ThroughoutAll P types ↔ ∀ type ∈ types, type.Throughout P := by
  induction types with
  | nil => simp [ThroughoutAll]
  | cons type types ih => simp [ThroughoutAll, ih]

theorem Throughout.self {P : SolType → Prop} {type : SolType} (htype : type.Throughout P) :
    P type := by
  cases type with
  | array | fixedArray | tuple => exact htype.1
  | _ => exact htype

theorem Throughout.imp {P Q : SolType → Prop} (hPQ : ∀ type, P type → Q type) {type : SolType}
    (htype : type.Throughout P) : type.Throughout Q := by
  induction type using SolType.induction with
  | array element ih | fixedArray element _ ih => exact ⟨hPQ _ htype.1, ih htype.2⟩
  | tuple components ih =>
      have hcomponents := throughoutAll_iff.mp htype.2
      exact ⟨hPQ _ htype.1, throughoutAll_iff.mpr fun type hmem =>
        ih type hmem (hcomponents type hmem)⟩
  | _ => exact hPQ _ htype

/-- Integers take whole bytes, and what fills a single word does not exceed it. -/
def HasSize : SolType → Prop
  | int bits | uint bits => 0 < bits ∧ bits ≤ 256 ∧ bits % 8 = 0
  | fixedBytes size => 0 < size ∧ size ≤ 32
  | _ => True

/-- The number of bits that the type declares for integers, if it is a type of them, satisfies
the condition. -/
def BitsSatisfy (P : Nat → Prop) : SolType → Prop
  | int bits | uint bits => P bits
  | _ => True

theorem BitsSatisfy.imp {P Q : Nat → Prop} (hPQ : ∀ bits, P bits → Q bits) {type : SolType}
    (htype : type.BitsSatisfy P) : type.BitsSatisfy Q := by
  cases type with
  | int bits | uint bits => exact hPQ bits htype
  | _ => trivial

/-- All sizes in the type are those of contract types. -/
def WellSized (type : SolType) : Prop := type.Throughout HasSize

theorem HasSize.bits_le {type : SolType} (hsize : type.HasSize) :
    type.BitsSatisfy (· ≤ 256) := by
  cases type with
  | int | uint => exact hsize.2.1
  | _ => trivial

/-- No function stands in the type. -/
def FunctionFree (type : SolType) : Prop := type.Throughout (· ≠ function)

end SolType

namespace TypeName

theorem wellSized_of_rootType {root : String} {type : SolType} (hroot : rootType root = .ok type) :
    type.WellSized := by
  unfold rootType at hroot
  repeat' split at hroot
  all_goals cases hroot
  all_goals trivial

mutual

theorem wellSized_of_resolve : ∀ {name : TypeName} {type : SolType},
    name.resolve = .ok type → type.WellSized
  | .root _, _, hresolve => wellSized_of_rootType hresolve
  | .array _, _, hresolve | .fixedArray _ _, _, hresolve => by
      rw [resolve] at hresolve
      obtain ⟨element, helement, hreturn⟩ := exists_of_bind_ok hresolve
      cases hreturn
      exact ⟨trivial, wellSized_of_resolve helement⟩
  | .tuple _, _, hresolve => by
      rw [resolve] at hresolve
      obtain ⟨types, htypes, hreturn⟩ := exists_of_bind_ok hresolve
      cases hreturn
      exact ⟨trivial, SolType.throughoutAll_iff.mpr (wellSized_of_resolveAll htypes)⟩

theorem wellSized_of_resolveAll : ∀ {names : List TypeName} {types : List SolType},
    resolveAll names = .ok types → ∀ type ∈ types, type.WellSized
  | [], _, hresolve => by
      cases hresolve
      simp
  | _ :: _, _, hresolve => by
      rw [resolveAll] at hresolve
      obtain ⟨type, hfirst, hrest⟩ := exists_of_bind_ok hresolve
      obtain ⟨later, hlater, hreturn⟩ := exists_of_bind_ok hrest
      cases hreturn
      exact List.forall_mem_cons.mpr
        ⟨wellSized_of_resolve hfirst, wellSized_of_resolveAll hlater⟩

end

end TypeName

/-- The types that texts name are well sized. -/
theorem SolType.wellSized_of_ofName {text : String} {type : SolType}
    (hname : ofName text = .ok type) : type.WellSized := by
  unfold ofName at hname
  split at hname
  · exact TypeName.wellSized_of_resolve hname
  · cases hname

theorem SolType.ofName_flags :
    ofName "(bool,bytes)[]" = .ok (.array (.tuple [.bool, .bytes])) := by
  have hletters : "(bool,bytes)[]".toList =
      ['(', 'b', 'o', 'o', 'l', ',', 'b', 'y', 't', 'e', 's', ')', '[', ']'] := by decide
  have hnamed : TypeName.named? (3 * "(bool,bytes)[]".length + 3)
      ['(', 'b', 'o', 'o', 'l', ',', 'b', 'y', 't', 'e', 's', ')', '[', ']'] =
        some (.array (.tuple [.root "bool", .root "bytes"]), []) := by rfl
  have htext : TypeName.ofText? "(bool,bytes)[]" =
      some (.array (.tuple [.root "bool", .root "bytes"])) := by
    rw [TypeName.ofText?, hletters, hnamed]
  rw [SolType.ofName, htext]
  rfl

namespace SolValue

@[simp] theorem toValues_eq_map (items : List SolValue) :
    toValues items = items.map toValue := by
  induction items with
  | nil => rfl
  | cons item items ih => simp [toValues, ih]

mutual

/-- Whether a value is of the type: it is made as the type says, with the sizes that the type
declares, and its integers have room in a word. -/
def HasType : SolType → SolValue → Prop
  | .bool, bool _ | .address, address _ | .function, function _ | .bytes, bytes _
  | .string, string _ => True
  | .int bits, int value declared =>
    declared = bits ∧ -(Nat.pow 2 255 : Int) ≤ value ∧ value < Nat.pow 2 255
  | .uint bits, uint value declared => declared = bits ∧ value < Nat.pow 2 256
  | .fixedBytes size, fixedBytes _ declared => declared = size ∧ size ≤ 32
  | .array element, array items => ∀ item ∈ items, HasType element item
  | .fixedArray element size, fixedArray items =>
    items.length = size ∧ ∀ item ∈ items, HasType element item
  | .tuple components, tuple items => HasTypes components items
  | _, _ => False

def HasTypes : List SolType → List SolValue → Prop
  | [], [] => True
  | type :: types, item :: items => HasType type item ∧ HasTypes types items
  | _, _ => False

end

mutual

/-- Whether the words of fixed byte strings are filled up with zeros. -/
def Padded : SolValue → Prop
  | fixedBytes word size => word.bytes.drop size = List.replicate (32 - size) 0
  | array items | fixedArray items | tuple items => AllPadded items
  | bool _ | int _ _ | uint _ _ | address _ | function _ | bytes _ | string _ => True

def AllPadded : List SolValue → Prop
  | [] => True
  | item :: items => item.Padded ∧ AllPadded items

end

theorem hasTypes_replicate_iff {element : SolType} {size : Nat} {items : List SolValue} :
    HasTypes (List.replicate size element) items ↔
      items.length = size ∧ ∀ item ∈ items, HasType element item := by
  induction size generalizing items with
  | zero => cases items <;> simp [HasTypes]
  | succ size ih =>
      cases items with
      | nil => simp [List.replicate_succ, HasTypes]
      | cons item items =>
          simp only [List.replicate_succ, HasTypes, ih, List.length_cons, Nat.add_right_cancel_iff,
            List.forall_mem_cons]
          tauto

theorem HasTypes.length_eq {types : List SolType} {items : List SolValue}
    (htypes : HasTypes types items) : items.length = types.length := by
  induction types generalizing items with
  | nil => cases items <;> simp_all [HasTypes]
  | cons type types ih =>
      cases items with
      | nil => exact htypes.elim
      | cons item items => simp [ih htypes.2]

end SolValue

end ChainExtract
