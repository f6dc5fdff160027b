import ChainExtract.Abi.Event
import ChainExtract.Chain.Variable
import ChainExtract.Export.Xes
import ChainExtract.Filter.AddressSet
import ChainExtract.Filter.BlockRange
import ChainExtract.Library

/-! # Failures of computations

In which ways the computations fail that a run makes on its values. Most of them fail only
because values do not suit them; chain items and variables may be missing besides.
-/

namespace ChainExtract

variable {α β : Type}

/-- The failure says that values do not suit a method, a filter, a record or an event. -/
def Error.IsUnsuitable : Error → Prop
  | .invalidParameters _ _ | .decode _ _ => True
  | _ => False

/-- The computation fails only as `E` says. -/
def FailsOnly (E : Error → Prop) (outcome : Except Error α) : Prop :=
  ∀ error, outcome = .error error → E error

variable {E E' : Error → Prop}

theorem failsOnly_ok {result : α} : FailsOnly E (.ok result : Except Error α) :=
  fun _ heq => by cases heq

theorem failsOnly_error {error : Error} (herror : E error) :
    FailsOnly E (.error error : Except Error α) :=
  fun _ heq => Except.error.inj heq ▸ herror

theorem FailsOnly.bind {x : Except Error α} {f : α → Except Error β} (hx : FailsOnly E x)
    (hf : ∀ result, FailsOnly E (f result)) : FailsOnly E (x >>= f) := by
  cases x with
  | ok result => exact hf result
  | error error => exact failsOnly_error (hx error rfl)

theorem FailsOnly.imp {x : Except Error α} (hx : FailsOnly E x)
    (herror : ∀ error, E error → E' error) : FailsOnly E' x :=
  fun error heq => herror error (hx error heq)

namespace Arguments

variable (args : Arguments) (index : Nat)

theorem failsOnly_value : FailsOnly Error.IsUnsuitable (args.value index) := by
  unfold value
  split
  · exact failsOnly_ok
  · exact failsOnly_error trivial

theorem failsOnly_int : FailsOnly Error.IsUnsuitable (args.int index) := by
  refine (args.failsOnly_value index).bind fun value => ?_
  split
  · exact failsOnly_ok
  · exact failsOnly_error trivial

theorem failsOnly_divisor : FailsOnly Error.IsUnsuitable (args.divisor index) := by
  refine (args.failsOnly_int index).bind fun value => ?_
  split
  · exact failsOnly_error trivial
  · exact failsOnly_ok

theorem failsOnly_bool : FailsOnly Error.IsUnsuitable (args.bool index) := by
  refine (args.failsOnly_value index).bind fun value => ?_
  split
  · exact failsOnly_ok
  · exact failsOnly_error trivial

theorem failsOnly_str : FailsOnly Error.IsUnsuitable (args.str index) := by
  refine (args.failsOnly_value index).bind fun value => ?_
  split
  · exact failsOnly_ok
  · exact failsOnly_error trivial

theorem failsOnly_bytes : FailsOnly Error.IsUnsuitable (args.bytes index) := by
  refine (args.failsOnly_value index).bind fun value => ?_
  split
  · exact failsOnly_ok
  · exact failsOnly_error trivial

theorem failsOnly_addr : FailsOnly Error.IsUnsuitable (args.addr index) := by
  refine (args.failsOnly_value index).bind fun value => ?_
  split
  · exact failsOnly_ok
  · exact failsOnly_error trivial

theorem failsOnly_list : FailsOnly Error.IsUnsuitable (args.list index) := by
  refine (args.failsOnly_value index).bind fun value => ?_
  split
  · exact failsOnly_ok
  · exact failsOnly_error trivial

theorem failsOnly_radix : FailsOnly Error.IsUnsuitable (args.radix index) := by
  refine (args.failsOnly_int index).bind fun value => ?_
  split
  · exact failsOnly_ok
  · exact failsOnly_error trivial

end Arguments

theorem failsOnly_mapM {f : α → Except Error β} (hf : ∀ item, FailsOnly E (f item))
    (items : List α) : FailsOnly E (items.mapM f) := by
  induction items with
  | nil => exact failsOnly_ok
  | cons item items ih =>
      rw [List.mapM_cons]
      exact (hf item).bind fun _ => ih.bind fun _ => failsOnly_ok

theorem Arguments.failsOnly_strings (args : Arguments) (index : Nat) :
    FailsOnly Error.IsUnsuitable (args.strings index) := by
  refine (args.failsOnly_list index).bind fun items => failsOnly_mapM (fun value => ?_) items
  split
  · exact failsOnly_ok
  · exact failsOnly_error trivial

theorem Builtin.failsOnly_apply (operation : Builtin) (values : List Value) :
    FailsOnly Error.IsUnsuitable (operation.apply values) := by
  unfold apply
  cases operation <;> dsimp only
  case and | or =>
    refine (Arguments.failsOnly_bool _ _).bind fun first => ?_
    split
    · first | exact failsOnly_ok | exact (Arguments.failsOnly_bool _ _).bind fun _ => failsOnly_ok
    · first | exact failsOnly_ok | exact (Arguments.failsOnly_bool _ _).bind fun _ => failsOnly_ok
  case divide | mod =>
    exact (Arguments.failsOnly_divisor _ _).bind fun _ =>
      (Arguments.failsOnly_int _ _).bind fun _ => failsOnly_ok
  case toStringRadix =>
    exact (Arguments.failsOnly_radix _ _).bind fun _ =>
      (Arguments.failsOnly_int _ _).bind fun _ => failsOnly_ok
  case equals =>
    exact (Arguments.failsOnly_value _ _).bind fun _ =>
      (Arguments.failsOnly_value _ _).bind fun _ => failsOnly_ok
  case contains =>
    exact (Arguments.failsOnly_value _ _).bind fun _ =>
      (Arguments.failsOnly_list _ _).bind fun _ => failsOnly_ok
  case not => exact (Arguments.failsOnly_bool _ _).bind fun _ => failsOnly_ok
  case concat =>
    exact (Arguments.failsOnly_str _ _).bind fun _ =>
      (Arguments.failsOnly_str _ _).bind fun _ => failsOnly_ok
  case toString => exact (Arguments.failsOnly_value _ _).bind fun _ => failsOnly_ok
  case toStringBytes | lengthBytes =>
    exact (Arguments.failsOnly_bytes _ _).bind fun _ => failsOnly_ok
  case toHex => exact (Arguments.failsOnly_int _ _).bind fun _ => failsOnly_ok
  case lengthList => exact (Arguments.failsOnly_list _ _).bind fun _ => failsOnly_ok
  case lengthString => exact (Arguments.failsOnly_str _ _).bind fun _ => failsOnly_ok
  all_goals
    exact (Arguments.failsOnly_int _ _).bind fun _ =>
      (Arguments.failsOnly_int _ _).bind fun _ => failsOnly_ok

theorem Method.failsOnly_validate (method : Method) (arguments : List Value) :
    FailsOnly Error.IsUnsuitable (method.validate arguments) := by
  unfold validate
  dsimp only
  split
  · exact failsOnly_error trivial
  · split
    next error hmismatch =>
      unfold mismatch? at hmismatch
      obtain ⟨_, _, rfl⟩ := Option.map_eq_some_iff.mp hmismatch
      exact failsOnly_error trivial
    next => exact failsOnly_ok

theorem AddressSet.failsOnly_ofValue (subject : String) (value? : Option Value) :
    FailsOnly Error.IsUnsuitable (ofValue subject value?) := by
  unfold ofValue
  split
  · exact failsOnly_ok
  · exact failsOnly_ok
  · split
    · exact failsOnly_ok
    · exact failsOnly_error trivial
  · exact failsOnly_error trivial

mutual

theorem XesValue.failsOnly_ofValue (type : XesType) : ∀ value : Value,
    FailsOnly Error.IsUnsuitable (ofValue type value)
  | .list items => by
      rw [ofValue]
      exact (XesValue.failsOnly_ofValues type items).bind fun _ => failsOnly_ok
  | .bool _ | .bytes _ | .addr _ => by
      cases type <;> first | exact failsOnly_ok | exact failsOnly_error trivial
  | .int value => by
      cases type <;> simp only [ofValue]
      case boolean => exact failsOnly_error trivial
      case float | string => exact failsOnly_ok
      all_goals split <;> first | exact failsOnly_ok | exact failsOnly_error trivial
  | .str value => by
      cases type <;> simp only [ofValue]
      case string => exact failsOnly_ok
      case float => split <;> first | exact failsOnly_ok | exact failsOnly_error trivial
      all_goals exact failsOnly_error trivial

theorem XesValue.failsOnly_ofValues (type : XesType) : ∀ values : List Value,
    FailsOnly Error.IsUnsuitable (ofValues type values)
  | [] => by
      rw [ofValues]
      exact failsOnly_ok
  | value :: values => by
      rw [ofValues]
      exact (XesValue.failsOnly_ofValue type value).bind fun _ =>
        (XesValue.failsOnly_ofValues type values).bind fun _ => failsOnly_ok

end

theorem BlockRange.failsOnly_bound (value : Value) :
    FailsOnly Error.IsUnsuitable (bound value) := by
  unfold bound
  split
  · exact failsOnly_ok
  · exact failsOnly_error trivial

theorem BlockRange.failsOnly_bound? (value? : Option Value) :
    FailsOnly Error.IsUnsuitable (bound? value?) := by
  cases value? with
  | none => exact failsOnly_ok
  | some value =>
      rw [bound?, map_eq_pure_bind]
      exact (failsOnly_bound value).bind fun _ => failsOnly_ok

theorem EventParameter.failsOnly_decodeTopic (parameter : EventParameter) (topic : Word) :
    FailsOnly Error.IsUnsuitable (parameter.decodeTopic topic) := by
  unfold decodeTopic
  split
  · split
    · exact failsOnly_ok
    · exact failsOnly_error trivial
  · exact failsOnly_ok

theorem EventDecl.failsOnly_assign (event : EventDecl) (parameters : List EventParameter)
    (topics : List Word) (body : List SolValue) :
    FailsOnly Error.IsUnsuitable (event.assign parameters topics body) := by
  induction parameters generalizing topics body with
  | nil => exact failsOnly_ok
  | cons parameter rest ih =>
      unfold assign
      split
      · split
        · exact failsOnly_error trivial
        · exact (parameter.failsOnly_decodeTopic _).bind fun _ =>
            (ih _ _).bind fun _ => failsOnly_ok
      · split
        · exact failsOnly_error trivial
        · exact (ih _ _).bind fun _ => failsOnly_ok

theorem EventDecl.failsOnly_decode (event : EventDecl) (topics : List Word) (data : Bytes) :
    FailsOnly Error.IsUnsuitable (event.decode topics data) := by
  unfold decode
  dsimp only
  split
  · exact failsOnly_error trivial
  · split
    · exact failsOnly_error trivial
    · exact event.failsOnly_assign _ _ _

theorem Cursor.failsOnly_atTransaction {cursor : Cursor} {block : Block}
    (hblock : cursor.block = some block) (index : Nat) :
    FailsOnly Error.IsUnsuitable (cursor.atTransaction index) := by
  simp only [atTransaction, hblock]
  split
  · exact failsOnly_ok
  · exact failsOnly_error trivial

theorem Cursor.failsOnly_atLogEntry {cursor : Cursor} {transaction : Transaction}
    (htransaction : cursor.transaction = some transaction) (index : Nat) :
    FailsOnly Error.IsUnsuitable (cursor.atLogEntry index) := by
  simp only [atLogEntry, htransaction]
  split
  · exact failsOnly_ok
  · exact failsOnly_error trivial

theorem Store.failsOnly_get (store : Store) (name : String) :
    FailsOnly (fun error => error = .undefinedVariable name ∧ store.get? name = none)
      (store.get name) := by
  unfold get
  cases hget : store.get? name with
  | some value => exact failsOnly_ok
  | none => exact failsOnly_error ⟨rfl, rfl⟩

/-- A chain variable is missing where the cursor points at no item of its kind. -/
theorem ChainVariable.failsOnly_resolve (var : ChainVariable) (cursor : Cursor) :
    FailsOnly (fun error => error = .unsetCursor var.name var.scope ∧
      (match var.scope with
        | .block => cursor.block = none
        | .transaction => cursor.transaction = none
        | .logEntry => cursor.logEntry = none)) (var.resolve cursor) := by
  unfold resolve scope
  cases var.reading with
  | block read => cases cursor.block <;> first | exact failsOnly_ok | exact failsOnly_error ⟨rfl, rfl⟩
  | transaction read =>
      cases cursor.transaction <;> first | exact failsOnly_ok | exact failsOnly_error ⟨rfl, rfl⟩
  | logEntry read =>
      cases cursor.logEntry <;> first | exact failsOnly_ok | exact failsOnly_error ⟨rfl, rfl⟩

end ChainExtract
