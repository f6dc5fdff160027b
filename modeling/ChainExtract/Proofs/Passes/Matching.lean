import ChainExtract.Filter.Items
import Mathlib.Data.List.Range

/-! # Matching items

The items that a filter chooses before it visits the first: their positions come in ascending
order, each once, and they are those of all items that match. Addresses are matched against the
members of a set, in whatever order and how often an operand lists them.
-/

namespace ChainExtract

/-- The positions of the items with a property, each once and in ascending order. -/
structure Selects {ι : Type} (items : List ι) (P : ι → Prop) (indices : List Nat) : Prop where
  ascending : indices.Pairwise (· < ·)
  mem_iff : ∀ index, index ∈ indices ↔ ∃ item, items[index]? = some item ∧ P item

theorem selects_filter_zipIdx {ι : Type} (items : List ι) (p : ι → Bool) :
    Selects items (p · = true) ((items.zipIdx.filter fun (item, _) => p item).map (·.2)) where
  ascending := by
    have hpositions : (items.zipIdx.map (·.2)).Pairwise (· < ·) := by
      rw [List.zipIdx_map_snd]
      exact List.pairwise_lt_range'
    exact hpositions.sublist (List.filter_sublist.map _)
  mem_iff := by
    intro index
    simp [List.mem_zipIdx_iff_getElem?]

theorem Selects.imp {ι : Type} {items : List ι} {P Q : ι → Prop} {indices : List Nat}
    (hselects : Selects items P indices) (hiff : ∀ item, P item ↔ Q item) :
    Selects items Q indices :=
  ⟨hselects.ascending, by simpa only [← hiff] using hselects.mem_iff⟩

theorem Selects.lt_length {ι : Type} {items : List ι} {P : ι → Prop} {indices : List Nat}
    (hselects : Selects items P indices) {index : Nat} (hindex : index ∈ indices) :
    index < items.length := by
  obtain ⟨item, hitem, _⟩ := (hselects.mem_iff index).mp hindex
  exact (List.getElem?_eq_some_iff.mp hitem).1

namespace AddressSet

/-- The addresses that the value of an operand gives, or the lack of an operand. -/
def Gives (addresses : List Address) : Option Value → Prop
  | none => addresses = []
  | some (.addr address) => addresses = [address]
  | some (.list items) => items = addresses.map .addr
  | some _ => False

theorem addresses?_map (addresses : List Address) :
    addresses? (addresses.map .addr) = some addresses := by
  induction addresses with
  | nil => rfl
  | cons address rest ih => simp [addresses?, ih]

theorem ofValue_of_gives {addresses : List Address} {value? : Option Value}
    (hgives : Gives addresses value?) (subject : String) :
    ofValue subject value? = .ok ⟨addresses⟩ := by
  cases value? with
  | none => rw [show addresses = [] from hgives, ofValue, any]
  | some value =>
      cases value with
      | addr address => rw [show addresses = [address] from hgives, ofValue]
      | list items =>
          rw [show items = addresses.map .addr from hgives]
          simp [ofValue, addresses?_map]
      | _ => exact hgives.elim

theorem admits_iff {set : AddressSet} {address? : Option Address} :
    set.admits address? = true ↔
      set.members = [] ∨ ∃ address ∈ set.members, address? = some address := by
  cases address? <;> simp [admits, admitsAll]

end AddressSet

/-- The transaction goes from one of the senders to one of the recipients. No senders or no
recipients stand for all, contract creations included. -/
def Transaction.IsBetween (senders recipients : List Address) (transaction : Transaction) : Prop :=
  (senders = [] ∨ transaction.sender ∈ senders) ∧
    (recipients = [] ∨ ∃ recipient ∈ recipients, transaction.recipient = some recipient)

/-- The log entry is named after the event and comes from one of the emitters. No emitters stand
for all. -/
def LogEntry.IsOf (event : EventDecl) (emitters : List Address) (entry : LogEntry) : Prop :=
  entry.topics.head? = some event.topic ∧ (emitters = [] ∨ entry.address ∈ emitters)

theorem TransactionFilter.selects_matching (senders recipients : AddressSet) (block : Block) :
    Selects block.transactions (·.IsBetween senders.members recipients.members)
      (matching senders recipients block) := by
  refine (selects_filter_zipIdx block.transactions fun transaction =>
    senders.admits (some transaction.sender) &&
      recipients.admits transaction.recipient).imp fun transaction => ?_
  simp [Transaction.IsBetween, AddressSet.admits_iff]

theorem EventDecl.matchesTopics_iff {event : EventDecl} {topics : List Word} :
    event.matchesTopics topics = true ↔ topics.head? = some event.topic := by
  cases topics <;> simp [matchesTopics]

theorem LogEntryFilter.selects_matching (event : EventDecl) (emitters : AddressSet)
    (transaction : Transaction) :
    Selects transaction.logs (·.IsOf event emitters.members)
      (matching event emitters transaction) := by
  refine (selects_filter_zipIdx transaction.logs fun entry =>
    event.matchesTopics entry.topics && emitters.admits (some entry.address)).imp fun entry => ?_
  simp [LogEntry.IsOf, AddressSet.admits_iff, EventDecl.matchesTopics_iff]

end ChainExtract
