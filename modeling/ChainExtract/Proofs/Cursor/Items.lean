import ChainExtract.Proofs.Cursor.Restoration
import ChainExtract.Proofs.Export.Streaming
import ChainExtract.Proofs.Typing.Adequacy

/-! # Cursors of nested instructions

An instruction starts within visits of items, each inside of the one before. The cursor
points at these items then, and at nothing below the last one.
-/

namespace ChainExtract

variable {σ : Type} {settings : Settings σ}

namespace Instruction

/-- An instruction that is run from the first state visits an item, and begins its body for that
item in the second. -/
inductive Visits (settings : Settings σ) :
    Instruction Empty → RunState σ → Item → RunState σ → Prop
  | block {first : Operand} {last : Option Operand} {body : List (Instruction Empty)}
      {state second third turning fetched : RunState σ} {lower : Value} {upper : Option Value}
      {start next : Int} {stop : Option Int} {window after : Window} {block : Block}
      (hfirst : first.evaluate.run settings state = .ok lower second)
      (hstart : BlockRange.bound lower = .ok start)
      (hlast : (Operand.evaluate? last).run settings second = .ok upper third)
      (hstop : BlockRange.bound? upper = .ok stop)
      (hreaches : BlockRange.Reaches (executeAll Empty.elim body) start stop settings third
        window next turning)
      (hnext : BlockRange.isBeyond stop next = false)
      (hfetch : (BlockRange.fetch window next).run settings turning =
        .ok (.ok (block, after)) fetched) :
      Visits settings (.blocks first last body) state (.block block)
        { fetched with cursor := .atBlock block, journal := .delivered block :: fetched.journal }
  | transaction {senders recipients : Option Operand} {body : List (Instruction Empty)}
      {state second third visited : RunState σ} {sending receiving : AddressSet} {block : Block}
      {earlier later : List Nat} {index : Nat} {cursor : Cursor}
      (hsenders : (evaluateAddresses "transaction senders" senders).run settings state =
        .ok sending second)
      (hrecipients : (evaluateAddresses "transaction recipients" recipients).run settings second =
        .ok receiving third)
      (hblock : third.cursor.block = some block)
      (hmatching : TransactionFilter.matching sending receiving block = earlier ++ index :: later)
      (hearlier : (TransactionFilter.visitAll (executeAll Empty.elim body) earlier).run settings
        third = .ok () visited)
      (hcursor : visited.cursor.atTransaction index = .ok cursor) :
      Visits settings (.transactions senders recipients body) state (.transaction index)
        { visited with cursor }
  | logEntry {event : EventDecl} {emitters : Option Operand} {body : List (Instruction Empty)}
      {state second visited begun : RunState σ} {emitting : AddressSet}
      {transaction : Transaction} {earlier later : List Nat} {index : Nat}
      (hemitters : (evaluateAddresses "log entry addresses" emitters).run settings state =
        .ok emitting second)
      (htransaction : second.cursor.transaction = some transaction)
      (hmatching : LogEntryFilter.matching event emitting transaction = earlier ++ index :: later)
      (hearlier : (LogEntryFilter.visitEach event.name
        (LogEntryFilter.visit event (executeAll Empty.elim body)) earlier).run settings second =
          .ok () visited)
      (hset : (do
        let decoded ← LogEntryFilter.enter event index
        decoded.forM fun (name, value) => Run.assign name value).run settings visited =
          .ok () begun) :
      Visits settings (.logEntries event emitters body) state (.logEntry index) begun

/-- Whether the instruction visits items. -/
def visitsItems : Instruction Empty → Bool
  | .blocks _ _ _ | .transactions _ _ _ | .logEntries _ _ _ => true
  | _ => false

/-- Visits of items begin bodies, and no body is begun in another way. -/
theorem begins_iff_visits {instruction : Instruction Empty} (hitems : instruction.visitsItems = true)
    {state begun : RunState σ} :
    instruction.Begins settings state begun ↔
      ∃ item, instruction.Visits settings state item begun := by
  constructor
  · intro hbegins
    cases hbegins with
    | blocks hfirst hstart hlast hstop hreaches hnext hfetch =>
        exact ⟨_, .block hfirst hstart hlast hstop hreaches hnext hfetch⟩
    | transactions hsenders hrecipients hblock hmatching hearlier hcursor =>
        exact ⟨_, .transaction hsenders hrecipients hblock hmatching hearlier hcursor⟩
    | logEntries hemitters htransaction hmatching hearlier hset =>
        exact ⟨_, .logEntry hemitters htransaction hmatching hearlier hset⟩
    | «when» | contract => cases hitems
  · rintro ⟨item, hvisits⟩
    cases hvisits with
    | block hfirst hstart hlast hstop hreaches hnext hfetch =>
        exact .blocks hfirst hstart hlast hstop hreaches hnext hfetch
    | transaction hsenders hrecipients hblock hmatching hearlier hcursor =>
        exact .transactions hsenders hrecipients hblock hmatching hearlier hcursor
    | logEntry hemitters htransaction hmatching hearlier hset =>
        exact .logEntries hemitters htransaction hmatching hearlier hset

/-- In a run of the code from the first state, the instruction starts in the second one, within
visits of the items, of which the outermost comes first. -/
inductive Starts (settings : Settings σ) :
    List (Instruction Empty) → RunState σ → List Item → Instruction Empty → RunState σ → Prop
  | first {instruction : Instruction Empty} {rest : List (Instruction Empty)} {state : RunState σ} :
      Starts settings (instruction :: rest) state [] instruction state
  | later {instruction nested : Instruction Empty} {rest : List (Instruction Empty)}
      {state after here : RunState σ} {items : List Item}
      (hrun : (instruction.execute Empty.elim).run settings state = .ok () after)
      (hstarts : Starts settings rest after items nested here) :
      Starts settings (instruction :: rest) state items nested here
  | visit {instruction nested : Instruction Empty} {rest : List (Instruction Empty)}
      {state begun here : RunState σ} {item : Item} {items : List Item}
      (hvisits : instruction.Visits settings state item begun)
      (hstarts : Starts settings instruction.body begun items nested here) :
      Starts settings (instruction :: rest) state (item :: items) nested here
  /-- The other bodies belong to the visits around them. -/
  | body {instruction nested : Instruction Empty} {rest : List (Instruction Empty)}
      {state begun here : RunState σ} {items : List Item}
      (hitems : instruction.visitsItems = false)
      (hbegins : instruction.Begins settings state begun)
      (hstarts : Starts settings instruction.body begun items nested here) :
      Starts settings (instruction :: rest) state items nested here

open Run

variable {place : Option Scope} {instruction : Instruction Empty} {state begun : RunState σ}

/-- The body for an item begins with the cursor on the item, which is set for its place. -/
theorem Visits.cursor {item : Item} (hvisits : instruction.Visits settings state item begun)
    (hfits : instruction.FitsAt place) (hset : state.cursor.SetFor place) :
    begun.cursor = state.cursor.visiting item ∧
      ∃ inner, FitsAllAt inner instruction.body ∧ begun.cursor.SetFor inner := by
  have hstable : OperandStable settings (·.cursor = state.cursor) := operandStable_cursor _
  cases hvisits with
  | block => exact ⟨rfl, some .block, hfits.2, Cursor.setFor_atBlock _⟩
  | @transaction senders recipients body _ second third visited _ _ _ earlier _ index next hsenders
      hrecipients _ _ hearlier hnext =>
      obtain ⟨rfl, hbody⟩ := hfits
      have hsecond := (sustains_evaluateAddresses (U := fun _ => False) hstable _
        senders).of_ok rfl hsenders
      have hthird := (sustains_evaluateAddresses (U := fun _ => False) hstable _
        recipients).of_ok hsecond hrecipients
      have hvisited : visited.cursor = state.cursor :=
        (restores_visitTransactions hset (fun _ => restores_executeAll body hbody)
          earlier).of_ok hthird hearlier
      rw [hvisited] at hnext
      refine ⟨?_, _, hbody, hset.atTransaction hnext⟩
      obtain ⟨_, _, _, rfl⟩ := Cursor.of_atTransaction_ok hnext
      rfl
  | @logEntry event emitters body _ second visited _ _ _ earlier _ index hemitters _ _ hearlier
      hdecoded =>
      obtain ⟨rfl, hbody⟩ := hfits
      have hsecond := (sustains_evaluateAddresses (U := fun _ => False) hstable _
        emitters).of_ok rfl hemitters
      have hvisited : visited.cursor = state.cursor :=
        (restores_visitLogEntries hset event (fun _ => restores_executeAll body hbody)
          earlier).of_ok hsecond hearlier
      obtain ⟨decoded, entered, hentered, hassigned⟩ := of_bind_ok hdecoded
      obtain ⟨hcursor, hlogEntry⟩ := (ensures_enter hset event index).of_ok hvisited hentered
      have hbegun : begun.cursor = entered.cursor :=
        (sustains_assignAll (E := fun _ => False) (U := fun _ => False)
          (operandStable_cursor entered.cursor) decoded).of_ok rfl hassigned
      rw [hbegun]
      exact ⟨hcursor, _, hbody, hlogEntry⟩

/-- The body of a condition or of questions to a contract begins with the cursor unchanged. -/
theorem Begins.cursor (hbegins : instruction.Begins settings state begun)
    (hitems : instruction.visitsItems = false) (hfits : instruction.FitsAt place) :
    begun.cursor = state.cursor ∧ FitsAllAt place instruction.body := by
  have hstable : OperandStable settings (·.cursor = state.cursor) := operandStable_cursor _
  cases hbegins with
  | «when» hcondition =>
      exact ⟨(sustains_evaluate (U := fun _ => False) hstable _).of_ok rfl hcondition, hfits⟩
  | contract hreads =>
      exact ⟨(sustains_reads (U := fun _ => False) hstable _ _).of_ok rfl hreads, hfits.2⟩
  | blocks | transactions | logEntries => cases hitems

/-- An instruction starts with the cursor on the items that are visited around it. -/
theorem Starts.cursor {code : List (Instruction Empty)} {items : List Item}
    {nested : Instruction Empty} {here : RunState σ}
    (hstarts : Starts settings code state items nested here) (hfits : FitsAllAt place code)
    (hset : state.cursor.SetFor place) :
    here.cursor = items.foldl Cursor.visiting state.cursor := by
  induction hstarts generalizing place with
  | first => rfl
  | @later instruction _ _ state _ _ _ hrun _ ih =>
      have hafter := (restores_execute instruction hfits.1 hset).of_ok rfl hrun
      rw [← hafter]
      exact ih hfits.2 (hafter ▸ hset)
  | visit hvisits _ ih =>
      obtain ⟨hcursor, inner, hbody, hinner⟩ := hvisits.cursor hfits.1 hset
      rw [List.foldl_cons, ← hcursor]
      exact ih hbody hinner
  | body hitems hbegins _ ih =>
      obtain ⟨hcursor, hbody⟩ := hbegins.cursor hitems hfits.1
      rw [← hcursor]
      exact ih hbody (hcursor ▸ hset)

end Instruction

namespace Plan

/-- An instruction that is compiled at a place leaves the cursor as it was, however it ends, and
whatever is nested in it starts with the cursor on the items that are visited around it. -/
theorem Instruction.restores_cursor_of_compile {library : Library} {place : Option Scope}
    {names after : Names} {instruction : Instruction} {compiled : ChainExtract.Instruction Empty}
    (hcompile : (instruction.compile library place).run names = .ok (compiled, after))
    (settings : Settings σ) {state : RunState σ} (hset : state.cursor.SetFor place) :
    ((compiled.execute Empty.elim).run settings state).Satisfies
        (fun _ final => final.cursor = state.cursor) (fun _ final => final.cursor = state.cursor)
        (fun _ => place = none) ∧
      ∀ items nested here, ChainExtract.Instruction.Starts settings [compiled] state items nested
        here → here.cursor = items.foldl Cursor.visiting state.cursor := by
  have hfits := Instruction.fitsAt_of_compile instruction hcompile
  refine ⟨?_, fun items nested here hstarts => hstarts.cursor ⟨hfits, trivial⟩ hset⟩
  exact (ChainExtract.Instruction.restores_execute compiled hfits hset state rfl).imp
    (fun _ _ hfinal => hfinal) (fun _ _ hfinal => hfinal.1) fun _ hplace => hplace

/-- A line for each payment in the blocks from 1 on. -/
def paidBlocks : Instruction :=
  .blocks (.literal (.scalar (.integer 1))) none [.transactions none none [.exportLine []]]

/-- Whether a block with one payment has been fetched. -/
def fetchedPayment : Outcome Nat (Except Error (Block × Window)) → Bool
  | .ok (.ok (block, _)) _ => block.transactions = [ChainExtract.Instruction.payment]
  | _ => false

theorem exists_fetched_payment : ∃ block window fetched,
    block.transactions = [ChainExtract.Instruction.payment] ∧
      (BlockRange.fetch { capacity := Window.rangeCapacity } 1).run
        ChainExtract.Instruction.payingSettings BlockRange.forkingStart =
          .ok (.ok (block, window)) fetched := by
  have hpayment : fetchedPayment ((BlockRange.fetch { capacity := Window.rangeCapacity } 1).run
      ChainExtract.Instruction.payingSettings BlockRange.forkingStart) = true := by decide +kernel
  generalize (BlockRange.fetch _ 1).run _ _ = outcome at hpayment
  cases outcome with
  | ok result fetched =>
      cases result with
      | ok pair => exact ⟨pair.1, pair.2, fetched, by simpa [fetchedPayment] using hpayment, rfl⟩
      | error => cases hpayment
  | failed | unfinished => cases hpayment

theorem Instruction.restores_cursor_of_compile_paying :
    ∃ code after block here,
      (paidBlocks.compile .standard none).run {} = .ok (code, after) ∧
        BlockRange.forkingStart.cursor.SetFor none ∧
        ((code.execute Empty.elim).run ChainExtract.Instruction.payingSettings
          BlockRange.forkingStart).Satisfies (fun _ final => final.cursor = .empty)
          (fun _ final => final.cursor = .empty) (fun _ => True) ∧
        ChainExtract.Instruction.Starts ChainExtract.Instruction.payingSettings [code]
          BlockRange.forkingStart [.block block, .transaction 0] (.exportLine []) here ∧
        here.cursor = ⟨some block, some 0, none⟩ := by
  have hcompile : (paidBlocks.compile .standard none).run {} =
    .ok (.blocks (.literal (.int 1)) none [.transactions none none [.exportLine []]],
      (({} : Names).enter.enter.leave).leave) := rfl
  have hset : BlockRange.forkingStart.cursor.SetFor none := by
    rintro (_ | _ | _) <;> rfl
  obtain ⟨block, window, fetched, hpayment, hfetch⟩ := exists_fetched_payment
  have hmatching : TransactionFilter.matching .any .any block = [] ++ 0 :: [] := by
    rw [TransactionFilter.matching, hpayment]
    rfl
  have hcursor : (Cursor.atBlock block).atTransaction 0 =
      .ok ((Cursor.atBlock block).visiting (.transaction 0)) := by
    simp [Cursor.atTransaction, Cursor.atBlock, hpayment, Cursor.visiting]
  have hstarts : ChainExtract.Instruction.Starts ChainExtract.Instruction.payingSettings
      [.blocks (.literal (.int 1)) none [.transactions none none [.exportLine []]]]
      BlockRange.forkingStart [.block block, .transaction 0] (.exportLine []) _ :=
    .visit (.block rfl rfl rfl rfl .start rfl hfetch)
      (.visit (.transaction rfl rfl rfl hmatching rfl hcursor) .first)
  obtain ⟨hends, hnested⟩ := Instruction.restores_cursor_of_compile hcompile
    ChainExtract.Instruction.payingSettings hset
  exact ⟨_, _, block, _, hcompile, hset,
    hends.imp (fun _ _ h => h) (fun _ _ h => h) fun _ _ => trivial, hstarts,
    hnested _ _ _ hstarts⟩

end Plan

end ChainExtract
