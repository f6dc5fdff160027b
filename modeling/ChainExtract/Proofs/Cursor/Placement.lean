import ChainExtract.Proofs.Scoping.Compilation

/-! # Places of instructions

Which cursors are set at a place of a plan, and the nesting that compilation enforces:
each visit of items stands where the cursor points at what the items belong to, and at
nothing below.
-/

namespace ChainExtract

namespace Cursor

/-- Whether the cursor points at an item of the kind. -/
def pointsAt (cursor : Cursor) : Scope → Bool
  | .block => cursor.block.isSome
  | .transaction => cursor.transactionAt.isSome
  | .logEntry => cursor.logEntryAt.isSome

/-- The cursor points at an item of each kind that can be read at the place, and at no others. -/
def SetFor (place : Option Scope) (cursor : Cursor) : Prop :=
  ∀ scope, cursor.pointsAt scope = place.any scope.visibleIn

variable {cursor : Cursor}

theorem SetFor.eq_empty (hset : cursor.SetFor none) : cursor = .empty := by
  have hblock := hset .block
  have htransaction := hset .transaction
  have hlogEntry := hset .logEntry
  cases cursor
  simp_all [pointsAt, empty]

theorem SetFor.exists_block {place : Option Scope} (hset : cursor.SetFor place)
    (hplace : place ≠ none) : ∃ block, cursor.block = some block := by
  obtain ⟨scope, rfl⟩ := Option.ne_none_iff_exists'.mp hplace
  have hblock : cursor.block.isSome = true := by
    rw [show cursor.block.isSome = _ from hset .block]
    exact decide_eq_true (Nat.zero_le scope.depth)
  exact Option.isSome_iff_exists.mp hblock

theorem SetFor.withoutTransaction (hset : cursor.SetFor (some .block)) :
    cursor.withoutTransaction = cursor := by
  have htransaction : cursor.transactionAt.isSome = false := hset .transaction
  have hlogEntry : cursor.logEntryAt.isSome = false := hset .logEntry
  cases cursor
  simp_all [Cursor.withoutTransaction]

theorem SetFor.withoutLogEntry {place : Option Scope} (hset : cursor.SetFor place)
    (hplace : place ≠ some .logEntry) : cursor.withoutLogEntry = cursor := by
  have hlogEntry : cursor.logEntryAt.isSome = false := by
    rw [show cursor.logEntryAt.isSome = _ from hset .logEntry]
    rcases place with _ | _ | _ | _ <;> first | rfl | exact absurd rfl hplace
  cases cursor
  simp_all [Cursor.withoutLogEntry]

theorem setFor_atBlock (block : Block) : (atBlock block).SetFor (some .block) := by
  rintro (_ | _ | _) <;> rfl

theorem of_atTransaction_ok {index : Nat} {next : Cursor}
    (hnext : cursor.atTransaction index = .ok next) :
    ∃ block, cursor.block = some block ∧ index < block.transactions.length ∧
      next = { cursor with transactionAt := some index, logEntryAt := none } := by
  unfold atTransaction at hnext
  cases hblock : cursor.block with
  | none =>
      rw [hblock] at hnext
      cases hnext
  | some block =>
      simp only [hblock] at hnext
      split at hnext
      next hindex => exact ⟨block, rfl, hindex, (Except.ok.inj hnext).symm⟩
      next => cases hnext

theorem of_atLogEntry_ok {index : Nat} {next : Cursor} (hnext : cursor.atLogEntry index = .ok next) :
    ∃ transaction, cursor.transaction = some transaction ∧ index < transaction.logs.length ∧
      next = { cursor with logEntryAt := some index } := by
  unfold atLogEntry at hnext
  cases htransaction : cursor.transaction with
  | none =>
      rw [htransaction] at hnext
      cases hnext
  | some transaction =>
      simp only [htransaction] at hnext
      split at hnext
      next hindex => exact ⟨transaction, rfl, hindex, (Except.ok.inj hnext).symm⟩
      next => cases hnext

/-- Pointing at a transaction sets the cursors for its body. -/
theorem SetFor.atTransaction (hset : cursor.SetFor (some .block)) {index : Nat} {next : Cursor}
    (hnext : cursor.atTransaction index = .ok next) : next.SetFor (some .transaction) := by
  obtain ⟨_, _, _, rfl⟩ := of_atTransaction_ok hnext
  rintro (_ | _ | _)
  · exact hset .block
  · rfl
  · rfl

/-- Pointing at a log entry sets the cursors for its body. -/
theorem SetFor.atLogEntry (hset : cursor.SetFor (some .transaction)) {index : Nat} {next : Cursor}
    (hnext : cursor.atLogEntry index = .ok next) : next.SetFor (some .logEntry) := by
  obtain ⟨_, _, _, rfl⟩ := of_atLogEntry_ok hnext
  rintro (_ | _ | _)
  · exact hset .block
  · exact hset .transaction
  · rfl

end Cursor

namespace Instruction

variable {χ : Type}

mutual

/-- The instruction stands at a place of its kind, and so does everything nested in it. -/
def FitsAt (place : Option Scope) : Instruction χ → Prop
  | .blocks _ _ body => place = none ∧ FitsAllAt (some .block) body
  | .transactions _ _ body => place = some .block ∧ FitsAllAt (some .transaction) body
  | .logEntries _ _ body => place = some .transaction ∧ FitsAllAt (some .logEntry) body
  | .when _ body => FitsAllAt place body
  | .contract _ _ body => place ≠ none ∧ FitsAllAt place body
  | .assign _ _ | .call _ _ _ | .exportRow _ _ | .exportLine _ | .exportEvent _ _ _ | .further _ =>
    True

def FitsAllAt (place : Option Scope) : List (Instruction χ) → Prop
  | [] => True
  | instruction :: rest => FitsAt place instruction ∧ FitsAllAt place rest

end

end Instruction

theorem Compiler.contains_of_requirePlace_bind_ok {α : Type} {instruction required : String}
    {places : List (Option Scope)} {place : Option Scope} {f : Unit → Compiler α}
    {names after : Names} {result : α}
    (hrun : (requirePlace instruction required places place >>= f).run names =
      .ok (result, after)) : places.contains place = true := by
  obtain ⟨_, _, hplace, _⟩ := of_bind_ok hrun
  unfold requirePlace at hplace
  split at hplace
  next hcontains => exact hcontains
  · cases hplace

namespace Plan

variable {library : Library}

mutual

/-- A compiled instruction stands at the place at which it was compiled. -/
theorem Instruction.fitsAt_of_compile : ∀ (instruction : Instruction) {place : Option Scope}
    {names after : Names} {compiled : ChainExtract.Instruction Empty},
    (instruction.compile library place).run names = .ok (compiled, after) →
    compiled.FitsAt place
  | .blocks first last body, place, names, after, compiled, hcompile => by
      obtain ⟨_, _, code, _, third, inner, _, _, hcode, rfl, _⟩ :=
        Instruction.of_compile_blocks_ok hcompile
      rw [Instruction.compile] at hcompile
      have hplace := Compiler.contains_of_requirePlace_bind_ok hcompile
      exact ⟨by simpa using hplace, Instruction.fitsAllAt_of_compileAll body hcode⟩
  | .transactions senders recipients body, place, names, after, compiled, hcompile => by
      obtain ⟨_, _, code, _, third, inner, _, _, hcode, rfl, _⟩ :=
        Instruction.of_compile_transactions_ok hcompile
      rw [Instruction.compile] at hcompile
      have hplace := Compiler.contains_of_requirePlace_bind_ok hcompile
      exact ⟨by simpa using hplace, Instruction.fitsAllAt_of_compileAll body hcode⟩
  | .logEntries event parameters emitters body, place, names, after, compiled, hcompile => by
      obtain ⟨_, _, code, _, third, inner, _, _, hcode, rfl, _⟩ :=
        Instruction.of_compile_logEntries_ok hcompile
      rw [Instruction.compile] at hcompile
      have hplace := Compiler.contains_of_requirePlace_bind_ok hcompile
      exact ⟨by simpa using hplace, Instruction.fitsAllAt_of_compileAll body hcode⟩
  | .when condition body, place, names, after, compiled, hcompile => by
      obtain ⟨_, code, second, inner, _, hcode, rfl, _⟩ := Instruction.of_compile_when_ok hcompile
      exact Instruction.fitsAllAt_of_compileAll body hcode
  | .contract address queries body, place, names, after, compiled, hcompile => by
      obtain ⟨_, _, _, code, _, _, fourth, inner, _, _, _, hcode, rfl, _⟩ :=
        Instruction.of_compile_contract_ok hcompile
      rw [Instruction.compile] at hcompile
      have hplace := Compiler.contains_of_requirePlace_bind_ok hcompile
      refine ⟨?_, Instruction.fitsAllAt_of_compileAll body hcode⟩
      rintro rfl
      cases hplace
  | .assign target value, place, names, after, compiled, hcompile => by
      obtain ⟨_, _, _, _, rfl, _⟩ := Instruction.of_compile_assign_ok hcompile
      trivial
  | .call method arguments result, place, names, after, compiled, hcompile => by
      obtain ⟨_, _, _, _, _, _, _, rfl⟩ := Instruction.of_compile_call_ok hcompile
      trivial
  | .exportRow table columns, place, names, after, compiled, hcompile => by
      obtain ⟨_, _, rfl⟩ := Instruction.of_compile_exportRow_ok hcompile
      trivial
  | .exportLine parts, place, names, after, compiled, hcompile => by
      obtain ⟨_, _, _, rfl⟩ := Instruction.of_compile_exportLine_ok hcompile
      trivial
  | .exportEvent trace event attributes, place, names, after, compiled, hcompile => by
      obtain ⟨_, _, _, _, _, _, _, _, _, _, _, rfl⟩ := Instruction.of_compile_exportEvent_ok hcompile
      trivial

theorem Instruction.fitsAllAt_of_compileAll : ∀ (instructions : List Instruction)
    {place : Option Scope} {names after : Names} {code : List (ChainExtract.Instruction Empty)},
    (Instruction.compileAll library place instructions).run names = .ok (code, after) →
    ChainExtract.Instruction.FitsAllAt place code
  | [], place, names, after, code, hcompile => by
      rw [Instruction.compileAll] at hcompile
      obtain ⟨rfl, _⟩ := Compiler.of_pure_ok hcompile
      trivial
  | instruction :: rest, place, names, after, code, hcompile => by
      obtain ⟨first, middle, others, hfirst, hothers, rfl⟩ :=
        Instruction.of_compileAll_cons_ok hcompile
      exact ⟨Instruction.fitsAt_of_compile instruction hfirst,
        Instruction.fitsAllAt_of_compileAll rest hothers⟩

end

end Plan

end ChainExtract
