import ChainExtract.Proofs.Maintains
import ChainExtract.Proofs.Typing.Points

/-! # Where bodies are run

An instruction runs its body in the states in which it begins the body, and in no others: a
body that runs alike in these states can take its place. So no run of a body is missing among
the points of a run.
-/

namespace ChainExtract

variable {σ α β : Type} {settings : Settings σ} {state : RunState σ}

namespace Run

theorem run_bind_congr {x : Run σ α} {f g : α → Run σ β}
    (h : ∀ result after, x.run settings state = .ok result after →
      (f result).run settings after = (g result).run settings after) :
    (x >>= f).run settings state = (x >>= g).run settings state := by
  rw [run_bind, run_bind]
  cases hrun : x.run settings state with
  | ok result after => exact h result after hrun
  | failed | unfinished => rfl

/-- Steps for the items of a list run alike if each does behind the ones before it. -/
theorem run_forM_congr {ι : Type} {f g : ι → Run σ Unit} {items : List ι}
    (h : ∀ earlier item later after, items = earlier ++ item :: later →
      (forM earlier f).run settings state = .ok () after →
      (f item).run settings after = (g item).run settings after) :
    (forM items f).run settings state = (forM items g).run settings state := by
  induction items generalizing state with
  | nil => rfl
  | cons first rest ih =>
      rw [List.forM_cons, List.forM_cons, run_bind, run_bind, ← h [] first rest state rfl rfl]
      cases hfirst : (f first).run settings state with
      | ok _ middle =>
          apply ih
          intro earlier item later after hrest hearlier
          apply h (first :: earlier) item later after (by rw [hrest]; rfl)
          rw [List.forM_cons, run_bind, hfirst]
          exact hearlier
      | failed | unfinished => rfl

end Run

section

variable {body other : Run σ Unit}

namespace BlockRange

theorem run_visit_congr {block : Block}
    (h : body.run settings { state with
        cursor := .atBlock block, journal := .delivered block :: state.journal } =
      other.run settings { state with
        cursor := .atBlock block, journal := .delivered block :: state.journal }) :
    (visit body block).run settings state = (visit other block).run settings state := by
  simp only [visit, Run.run_bind, Run.run_note, Run.setCursor, Run.run_modify, Run.run_attempt, h]

theorem run_turn_congr {window : Window} {next : Int}
    (h : ∀ block after fetched,
      (fetch window next).run settings state = .ok (.ok (block, after)) fetched →
      (visit body block).run settings fetched = (visit other block).run settings fetched) :
    (turn body window next).run settings state = (turn other window next).run settings state := by
  unfold turn
  apply Run.run_bind_congr
  intro result fetched hfetch
  cases result with
  | ok pair => rw [Run.run_bind, Run.run_bind, h _ _ _ hfetch]
  | error error => cases error <;> rfl

/-- A range visits the blocks that it fetches in its turns. -/
theorem run_visitFrom_congr {first next : Int} {last : Option Int} {window : Window}
    {start : RunState σ} {patience : Nat}
    (h : ∀ window next turning block after fetched,
      Reaches body first last settings start window next turning → isBeyond last next = false →
      (fetch window next).run settings turning = .ok (.ok (block, after)) fetched →
      (visit body block).run settings fetched = (visit other block).run settings fetched)
    (hreaches : Reaches body first last settings start window next state) :
    (visitFrom body last patience window next).run settings state =
      (visitFrom other last patience window next).run settings state := by
  induction patience generalizing window next state with
  | zero =>
      cases hnext : isBeyond last next with
      | true => rw [run_visitFrom_of_beyond hnext, run_visitFrom_of_beyond hnext]
      | false => rw [run_visitFrom_zero hnext, run_visitFrom_zero hnext]
  | succ patience ih =>
      cases hnext : isBeyond last next with
      | true => rw [run_visitFrom_of_beyond hnext, run_visitFrom_of_beyond hnext]
      | false =>
          rw [run_visitFrom_succ hnext, run_visitFrom_succ hnext,
            ← run_turn_congr fun block after fetched => h _ _ _ block after fetched hreaches hnext]
          cases hturn : (turn body window next).run settings state with
          | ok follow after => exact ih (hreaches.turn hnext hturn)
          | failed | unfinished => rfl

end BlockRange

namespace TransactionFilter

/-- Visits the transaction at a position of the block. -/
def visit (body : Run σ Unit) (index : Nat) : Run σ Unit := do
  Run.setCursor (← Run.ofExcept ((← Run.state).cursor.atTransaction index))
  let outcome ← body.attempt
  Run.setCursor (← Run.state).cursor.withoutTransaction
  Run.conclude s!"error processing transaction {index}" outcome

theorem visitAll_eq_forM (indices : List Nat) :
    visitAll body indices = forM indices (visit body) := by
  induction indices with
  | nil => rfl
  | cons index rest ih =>
      rw [visitAll, List.forM_cons, ih]
      simp only [visit, bind_assoc]

theorem run_visit_congr {index : Nat}
    (h : ∀ cursor, state.cursor.atTransaction index = .ok cursor →
      body.run settings { state with cursor } = other.run settings { state with cursor }) :
    (visit body index).run settings state = (visit other index).run settings state := by
  simp only [visit, Run.run_bind, Run.run_state]
  cases hcursor : state.cursor.atTransaction index with
  | ok cursor =>
      simp only [Run.run_ofExcept_ok, Run.setCursor, Run.run_modify, Run.run_attempt,
        h cursor hcursor]
  | error => rfl

theorem run_visitAll_congr {indices : List Nat}
    (h : ∀ earlier index later visited cursor, indices = earlier ++ index :: later →
      (visitAll body earlier).run settings state = .ok () visited →
      visited.cursor.atTransaction index = .ok cursor →
      body.run settings { visited with cursor } = other.run settings { visited with cursor }) :
    (visitAll body indices).run settings state = (visitAll other indices).run settings state := by
  rw [visitAll_eq_forM, visitAll_eq_forM]
  apply Run.run_forM_congr
  intro earlier index later visited hindices hearlier
  rw [← visitAll_eq_forM] at hearlier
  exact run_visit_congr fun cursor hcursor => h _ _ _ _ cursor hindices hearlier hcursor

end TransactionFilter

namespace LogEntryFilter

theorem run_visit_congr {event : EventDecl} {index : Nat}
    (h : ∀ begun, (do
        let decoded ← enter event index
        decoded.forM fun (name, value) => Run.assign name value).run settings state =
          .ok () begun → body.run settings begun = other.run settings begun) :
    (visit event body index).run settings state = (visit event other index).run settings state := by
  unfold visit
  apply Run.run_bind_congr
  intro decoded entered hentered
  apply Run.run_bind_congr
  intro _ begun hset
  have hsame : body.run settings begun = other.run settings begun := by
    apply h
    rw [Run.run_bind, hentered]
    exact hset
  rw [Run.run_bind, Run.run_bind, Run.run_attempt, Run.run_attempt, hsame]

theorem visitEach_eq_forM (event : String) (visit : Nat → Run σ Unit) (indices : List Nat) :
    visitEach event visit indices = forM indices (visitEach event visit [·]) := by
  induction indices with
  | nil => rfl
  | cons index rest ih =>
      rw [visitEach, List.forM_cons, ih]
      simp only [visitEach, bind_assoc, pure_bind]

theorem run_visitEach_congr {event : String} {visit visit' : Nat → Run σ Unit}
    {indices : List Nat}
    (h : ∀ earlier index later visited, indices = earlier ++ index :: later →
      (visitEach event visit earlier).run settings state = .ok () visited →
      (visit index).run settings visited = (visit' index).run settings visited) :
    (visitEach event visit indices).run settings state =
      (visitEach event visit' indices).run settings state := by
  rw [visitEach_eq_forM, visitEach_eq_forM]
  apply Run.run_forM_congr
  intro earlier index later visited hindices hearlier
  rw [← visitEach_eq_forM] at hearlier
  simp only [visitEach, Run.run_bind, Run.run_attempt, h _ _ _ _ hindices hearlier]

end LogEntryFilter

theorem ContractFilter.run_readAndRun_congr {address : Operand} {reads : List MemberRead}
    (h : ∀ begun, (do
        let target ← target (← address.evaluate)
        reads.forM (read target)).run settings state = .ok () begun →
      body.run settings begun = other.run settings begun) :
    (readAndRun address reads body).run settings state =
      (readAndRun address reads other).run settings state := by
  unfold readAndRun
  apply Run.run_bind_congr
  intro value middle haddress
  apply Run.run_bind_congr
  intro target asking htarget
  apply Run.run_bind_congr
  intro _ begun hreads
  apply h
  simp only [Run.run_bind, haddress, htarget]
  exact hreads

end

namespace Instruction

/-- The code that an instruction runs for the items that it visits. -/
def body : Instruction Empty → List (Instruction Empty)
  | blocks _ _ body | transactions _ _ body | logEntries _ _ body | when _ body
  | contract _ _ body => body
  | assign _ _ | call _ _ _ | exportRow _ _ | exportLine _ | exportEvent _ _ _ => []

/-- Runs the instruction with a body in the place of its own, if it has one. -/
def around (body : Run σ Unit) : Instruction Empty → Run σ Unit
  | blocks first last _ => do
    let first ← Run.ofExcept (BlockRange.bound (← first.evaluate))
    let last ← Run.ofExcept (BlockRange.bound? (← Operand.evaluate? last))
    BlockRange.visitAll body first last
  | transactions senders recipients _ => do
    let senders ← evaluateAddresses "transaction senders" senders
    let recipients ← evaluateAddresses "transaction recipients" recipients
    TransactionFilter.run senders recipients body
  | logEntries event emitters _ => do
    let emitters ← evaluateAddresses "log entry addresses" emitters
    LogEntryFilter.run event emitters body
  | when condition _ => do runWhen (← condition.evaluate) body
  | contract address reads _ => ContractFilter.run address reads body
  | instruction => instruction.execute Empty.elim

/-- An instruction runs its body only where it begins the body. -/
theorem run_around_of_begins (instruction : Instruction Empty) {other : Run σ Unit}
    (h : ∀ begun, instruction.Begins settings state begun →
      (executeAll Empty.elim instruction.body).run settings begun = other.run settings begun) :
    (instruction.execute Empty.elim).run settings state =
      (instruction.around other).run settings state := by
  cases instruction with
  | blocks first last code =>
      simp only [around, execute]
      apply Run.run_bind_congr
      intro lower second hfirst
      apply Run.run_bind_congr
      intro start _ hlower
      obtain ⟨hstart, rfl⟩ := Run.of_ofExcept_ok hlower
      apply Run.run_bind_congr
      intro upper third hlast
      apply Run.run_bind_congr
      intro stop _ hupper
      obtain ⟨hstop, rfl⟩ := Run.of_ofExcept_ok hupper
      apply BlockRange.run_visitFrom_congr _ .start
      intro window next turning block after fetched hreaches hnext hfetch
      apply BlockRange.run_visit_congr
      exact h _ (.blocks hfirst hstart hlast hstop hreaches hnext hfetch)
  | transactions senders recipients code =>
      simp only [around, execute]
      apply Run.run_bind_congr
      intro sending second hsenders
      apply Run.run_bind_congr
      intro receiving third hrecipients
      simp only [TransactionFilter.run, Run.run_bind, Run.run_state]
      cases hblock : third.cursor.block with
      | none => rfl
      | some block =>
          apply TransactionFilter.run_visitAll_congr
          intro earlier index later visited cursor hmatching hearlier hcursor
          exact h _ (.transactions hsenders hrecipients hblock hmatching hearlier hcursor)
  | logEntries event emitters code =>
      simp only [around, execute]
      apply Run.run_bind_congr
      intro emitting second hemitters
      simp only [LogEntryFilter.run, LogEntryFilter.visitMatching, Run.run_bind, Run.run_state]
      cases htransaction : second.cursor.transaction with
      | none => rfl
      | some transaction =>
          apply LogEntryFilter.run_visitEach_congr
          intro earlier index later visited hmatching hearlier
          apply LogEntryFilter.run_visit_congr
          intro begun hset
          exact h _ (.logEntries hemitters htransaction hmatching hearlier hset)
  | «when» condition code =>
      simp only [around, execute]
      apply Run.run_bind_congr
      intro value begun hcondition
      cases value with
      | bool holds =>
          cases holds with
          | true => exact h _ (.when hcondition)
          | false => rfl
      | _ => rfl
  | contract address reads code =>
      have hsame := ContractFilter.run_readAndRun_congr fun begun hreads =>
        h begun (.contract hreads)
      rw [body] at hsame
      simp only [around, execute, ContractFilter.run, Run.run_bind, Run.run_attempt, hsame]
  | assign | call | exportRow | exportLine | exportEvent => rfl
  | further instruction => exact instruction.elim

end Instruction

end ChainExtract
