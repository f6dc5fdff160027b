import ChainExtract.Proofs.Scoping.Compilation
import ChainExtract.Proofs.Typing.Points

/-! # Uses of operands

The compilation lets an operand pass for its use if its type is the one that the use needs, or
says nothing. Of a type that says something all values are taken at run time.
-/

namespace ChainExtract.Plan

variable {σ : Type} {library : Library} {settings : Settings σ} {place : Option Scope}

/-- The compilation lets operands of the type pass for the use. -/
def Use.Admits (type : ValueType) : Use → Prop
  | plain => True
  | condition => type = .any ∨ ValueType.bool.accepts type = true
  | bound => type = .any ∨ ValueType.int.accepts type = true
  | contract => type = .any ∨ ValueType.address.accepts type = true
  | addresses => type = .any ∨ type = .address ∨ type = .list .any ∨ type = .list .address

theorem exists_addresses {items : List Value} (hitems : ∀ item ∈ items, item.Conforms .address) :
    ∃ members, AddressSet.addresses? items = some members := by
  induction items with
  | nil => exact ⟨[], rfl⟩
  | cons item items ih =>
      obtain ⟨hitem, hrest⟩ := List.forall_mem_cons.mp hitems
      obtain ⟨address, rfl⟩ := Value.conforms_address.mp hitem
      obtain ⟨members, hmembers⟩ := ih hrest
      exact ⟨address :: members, by simp [AddressSet.addresses?, hmembers]⟩

/-- Unless its type says nothing, a value that conforms to an admitted type is taken. -/
theorem Use.takes_of_conforms {use : Use} {type : ValueType} (hadmits : use.Admits type)
    (hany : type ≠ .any) (hlist : type ≠ .list .any) {value : Value}
    (hvalue : value.Conforms type) : use.Takes settings value := by
  cases use with
  | plain => trivial
  | condition =>
      obtain ⟨b, rfl⟩ := Value.conforms_bool.mp (hvalue.of_accepts (hadmits.resolve_left hany))
      cases b <;> exact fun _ => rfl
  | bound =>
      obtain ⟨number, rfl⟩ := Value.conforms_int.mp (hvalue.of_accepts (hadmits.resolve_left hany))
      exact ⟨number, rfl⟩
  | contract =>
      obtain ⟨address, rfl⟩ :=
        Value.conforms_address.mp (hvalue.of_accepts (hadmits.resolve_left hany))
      intro state block hblock
      exact ⟨address, by simp [ContractFilter.target, hblock]⟩
  | addresses =>
      intro subject
      rcases hadmits.resolve_left hany with rfl | rfl | rfl
      · obtain ⟨address, rfl⟩ := Value.conforms_address.mp hvalue
        exact ⟨_, rfl⟩
      · exact absurd rfl hlist
      · cases value with
        | list items =>
            obtain ⟨members, hmembers⟩ := exists_addresses hvalue
            exact ⟨⟨members⟩, by simp [AddressSet.ofValue, hmembers]⟩
        | _ => exact hvalue.elim

section Fits

variable (library : Library) (place : Option Scope)

/-- The operands compile one after the other, each with a type that its use admits. -/
def Fits : List (Use × Operand) → Names → Names → Prop
  | [], names, after => after = names
  | (use, operand) :: rest, names, after => ∃ compiled type next,
    (operand.compile library place).run names = .ok ((compiled, type), next) ∧
      use.Admits type ∧ Fits rest next after

variable {library place} {names middle after : Names}

theorem Fits.append {first second : List (Use × Operand)}
    (hfirst : Fits library place first names middle)
    (hsecond : Fits library place second middle after) :
    Fits library place (first ++ second) names after := by
  induction first generalizing names with
  | nil =>
      obtain rfl : middle = names := hfirst
      exact hsecond
  | cons entry rest ih =>
      obtain ⟨compiled, type, next, hcompile, hadmits, hrest⟩ := hfirst
      exact ⟨compiled, type, next, hcompile, hadmits, ih hrest⟩

theorem fits_of_compileTyped {context : String} {expected : ValueType} {use : Use}
    (hadmits : ∀ type, type = .any ∨ expected.accepts type = true → use.Admits type)
    {operand : Operand} {compiled : ChainExtract.Operand}
    (hcompile : (Operand.compileTyped library place context expected operand).run names =
      .ok (compiled, after)) : Fits library place [(use, operand)] names after := by
  obtain ⟨⟨found, type⟩, middle, hfound, hrest⟩ := Compiler.of_bind_ok hcompile
  simp only at hrest
  split at hrest
  next hfits =>
    obtain ⟨rfl, rfl⟩ := Compiler.of_pure_ok hrest
    exact ⟨compiled, type, after, hfound, hadmits type hfits, rfl⟩
  next => cases hrest

theorem fits_of_compileAddresses {context : String} {operand : Operand}
    {compiled : ChainExtract.Operand}
    (hcompile : (Operand.compileAddresses library place context operand).run names =
      .ok (compiled, after)) : Fits library place [(.addresses, operand)] names after := by
  obtain ⟨⟨found, type⟩, middle, hfound, hrest⟩ := Compiler.of_bind_ok hcompile
  have hfits (hadmits : Use.addresses.Admits type)
      (hreturn : (pure found : Compiler ChainExtract.Operand).run middle = .ok (compiled, after)) :
      Fits library place [(.addresses, operand)] names after := by
    obtain ⟨rfl, rfl⟩ := Compiler.of_pure_ok hreturn
    exact ⟨compiled, type, after, hfound, hadmits, rfl⟩
  simp only at hrest
  split at hrest
  · exact hfits (Or.inl rfl) hrest
  · exact hfits (Or.inr (Or.inl rfl)) hrest
  · exact hfits (Or.inr (Or.inr (Or.inl rfl))) hrest
  · exact hfits (Or.inr (Or.inr (Or.inr rfl))) hrest
  · cases hrest

theorem fits_of_compile? {use : Use} {compile : Operand → Compiler ChainExtract.Operand}
    (hfits : ∀ {operand : Operand} {names after : Names} {compiled : ChainExtract.Operand},
      (compile operand).run names = .ok (compiled, after) →
        Fits library place [(use, operand)] names after)
    {operand? : Option Operand} {compiled? : Option ChainExtract.Operand}
    (hcompile : (Operand.compile? compile operand?).run names = .ok (compiled?, after)) :
    Fits library place (operand?.toList.map (use, ·)) names after := by
  cases operand? with
  | none =>
      obtain ⟨_, rfl⟩ := Compiler.of_pure_ok hcompile
      rfl
  | some operand =>
      rw [Operand.compile?, map_eq_pure_bind] at hcompile
      obtain ⟨compiled, middle, hoperand, hreturn⟩ := Compiler.of_bind_ok hcompile
      obtain ⟨_, rfl⟩ := Compiler.of_pure_ok hreturn
      exact hfits hoperand

theorem fits_of_compileAll {operands : List Operand} {compiled : List ChainExtract.Operand}
    {types : List ValueType}
    (hcompile : (Operand.compileAll library place operands).run names =
      .ok ((compiled, types), after)) :
    Fits library place (operands.map (.plain, ·)) names after := by
  induction operands generalizing names compiled types with
  | nil =>
      rw [Operand.compileAll] at hcompile
      obtain ⟨_, rfl⟩ := Compiler.of_pure_ok hcompile
      rfl
  | cons operand operands ih =>
      obtain ⟨first, type, middle, _, _, hfirst, hothers, _⟩ :=
        Operand.of_compileAll_cons_ok hcompile
      exact ⟨first, type, middle, hfirst, trivial, ih hothers⟩

theorem fits_of_compileNamed {columns : List (String × Operand)}
    {compiled : List (String × ChainExtract.Operand)}
    (hcompile : (Operand.compileNamed library place columns).run names = .ok (compiled, after)) :
    Fits library place (columns.map fun column => (.plain, column.2)) names after := by
  induction columns generalizing names compiled with
  | nil =>
      obtain ⟨_, rfl⟩ := Compiler.of_pure_ok hcompile
      rfl
  | cons column columns ih =>
      obtain ⟨⟨first, type⟩, middle, hfirst, hrest⟩ := Compiler.of_bind_ok hcompile
      obtain ⟨others, last, hothers, hreturn⟩ := Compiler.of_bind_ok hrest
      obtain ⟨_, rfl⟩ := Compiler.of_pure_ok hreturn
      exact ⟨first, type, middle, hfirst, trivial, ih hothers⟩

theorem fits_of_compileAttributes {attributes : List Attribute} {compiled : List AttributeOperand}
    (hcompile : (Attribute.compileAll library place attributes).run names =
      .ok (compiled, after)) :
    Fits library place (attributes.map fun entry => (.plain, entry.value)) names after := by
  induction attributes generalizing names compiled with
  | nil =>
      obtain ⟨_, rfl⟩ := Compiler.of_pure_ok hcompile
      rfl
  | cons entry attributes ih =>
      obtain ⟨⟨first, type⟩, middle, hfirst, hrest⟩ := Compiler.of_bind_ok hcompile
      obtain ⟨others, last, hothers, hreturn⟩ := Compiler.of_bind_ok hrest
      obtain ⟨_, rfl⟩ := Compiler.of_pure_ok hreturn
      exact ⟨first, type, middle, hfirst, trivial, ih hothers⟩

/-- The operands of an instruction that compiles fit. -/
theorem Instruction.fits_uses {instruction : Instruction}
    {compiled : ChainExtract.Instruction Empty}
    (hcompile : (instruction.compile library place).run names = .ok (compiled, after)) :
    ∃ middle, Fits library place instruction.uses names middle := by
  cases instruction with
  | blocks first last body =>
      obtain ⟨_, _, _, second, third, _, hlower, hupper, _⟩ := of_compile_blocks_ok hcompile
      have hfirst : Fits library place [(.bound, first)] names second :=
        fits_of_compileTyped (fun _ => id) hlower
      exact ⟨third, hfirst.append (fits_of_compile? (fits_of_compileTyped fun _ => id) hupper)⟩
  | transactions senders recipients body =>
      obtain ⟨_, _, _, second, third, _, hsenders, hrecipients, _⟩ :=
        of_compile_transactions_ok hcompile
      exact ⟨third, (fits_of_compile? fits_of_compileAddresses hsenders).append
        (fits_of_compile? fits_of_compileAddresses hrecipients)⟩
  | logEntries event parameters emitters body =>
      obtain ⟨_, _, _, second, _, _, hemitters, _⟩ := of_compile_logEntries_ok hcompile
      exact ⟨second, fits_of_compile? fits_of_compileAddresses hemitters⟩
  | «when» condition body =>
      obtain ⟨_, _, second, _, htest, _⟩ := of_compile_when_ok hcompile
      exact ⟨second, fits_of_compileTyped (fun _ => id) htest⟩
  | contract address queries body =>
      obtain ⟨_, _, _, _, second, _, _, _, haddress, _⟩ := of_compile_contract_ok hcompile
      exact ⟨second, fits_of_compileTyped (fun _ => id) haddress⟩
  | assign target value =>
      obtain ⟨source, type, second, hsource, _⟩ := of_compile_assign_ok hcompile
      exact ⟨second, source, type, second, hsource, trivial, rfl⟩
  | call method arguments result =>
      obtain ⟨_, _, second, _, _, harguments, _⟩ := of_compile_call_ok hcompile
      exact ⟨second, fits_of_compileAll harguments⟩
  | exportRow table columns =>
      obtain ⟨_, hcolumns, _⟩ := of_compile_exportRow_ok hcompile
      exact ⟨after, fits_of_compileNamed hcolumns⟩
  | exportLine parts =>
      obtain ⟨_, _, hparts, _⟩ := of_compile_exportLine_ok hcompile
      exact ⟨after, fits_of_compileAll hparts⟩
  | exportEvent trace event attributes =>
      obtain ⟨first, firstType, second, next, nextType, third, _, hfirst, hnext, hoperands, _⟩ :=
        of_compile_exportEvent_ok hcompile
      exact ⟨after, first, firstType, second, hfirst, trivial, next, nextType, third, hnext,
        trivial, fits_of_compileAttributes hoperands⟩

/-- The parts of an operand that compiles fit. -/
theorem Operand.fits_parts {operand : Operand} {compiled : ChainExtract.Operand} {type : ValueType}
    (hcompile : (operand.compile library place).run names = .ok ((compiled, type), after)) :
    ∃ middle, Fits library place (operand.parts.map (.plain, ·)) names middle := by
  cases operand with
  | call method arguments result =>
      obtain ⟨operands, types, middle, _, _, harguments, _⟩ := Operand.of_compile_call_ok hcompile
      exact ⟨middle, fits_of_compileAll harguments⟩
  | list items =>
      obtain ⟨operands, types, hitems, _⟩ := Operand.of_compile_list_ok hcompile
      exact ⟨after, fits_of_compileAll hitems⟩
  | _ => exact ⟨names, rfl⟩

end Fits

end ChainExtract.Plan
