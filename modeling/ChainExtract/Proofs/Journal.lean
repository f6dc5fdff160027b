import ChainExtract.Run.Report
import ChainExtract.Run.Request
import Mathlib.Data.List.Basic
import Mathlib.Data.List.TakeWhile

/-! # Reading the journal

Parts of a journal with the oldest entry first, what a state has entered since
an earlier one, and what a single request enters.
-/

namespace ChainExtract

namespace Journal

/-- The numbers for which blocks were asked. -/
def requests (entries : List JournalEntry) : List Int :=
  entries.filterMap fun
    | .block number _ => some number
    | _ => none

/-- The numbers for which a request for the block failed. -/
def refusals (entries : List JournalEntry) : List Int :=
  entries.filterMap fun
    | .block number (.error _) => some number
    | _ => none

/-- The remembered blocks that were given up again. -/
def withdrawals (entries : List JournalEntry) : List (Int × Word) :=
  entries.filterMap fun
    | .withdrawn number hash => some (number, hash)
    | _ => none

/-- The blocks that were handed to the instructions. -/
def deliveries (entries : List JournalEntry) : List Block :=
  entries.filterMap fun
    | .delivered block => some block
    | _ => none

/-- The failures that were reported. -/
def reports (entries : List JournalEntry) : List (String × Error) :=
  entries.filterMap fun
    | .reported message error => some (message, error)
    | _ => none

/-- The records that were exported. -/
def exports (entries : List JournalEntry) : List Record :=
  entries.filterMap fun
    | .exported record => some record
    | _ => none

def IsDelivery : JournalEntry → Bool
  | .delivered _ => true
  | _ => false

/-- The blocks that were handed to the instructions, each with the records that were exported
before the next one was. -/
def processed : List JournalEntry → List (Block × List Record)
  | [] => []
  | .delivered block :: entries =>
    (block, exports (entries.takeWhile (!IsDelivery ·))) :: processed entries
  | _ :: entries => processed entries

/-- The block that was delivered last under a number. -/
def lastDelivered (entries : List JournalEntry) (number : Int) : Option Block :=
  ((deliveries entries).filter (·.number = number)).getLast?

/-- Entries of requests to the chain and of what is given up because of their answers. -/
def Retrieves : JournalEntry → Prop
  | .head _ | .block _ _ | .withdrawn _ _ => True
  | _ => False

@[simp] theorem requests_append (first second : List JournalEntry) :
    requests (first ++ second) = requests first ++ requests second :=
  List.filterMap_append

@[simp] theorem withdrawals_append (first second : List JournalEntry) :
    withdrawals (first ++ second) = withdrawals first ++ withdrawals second :=
  List.filterMap_append

@[simp] theorem deliveries_append (first second : List JournalEntry) :
    deliveries (first ++ second) = deliveries first ++ deliveries second :=
  List.filterMap_append

@[simp] theorem reports_append (first second : List JournalEntry) :
    reports (first ++ second) = reports first ++ reports second :=
  List.filterMap_append

@[simp] theorem exports_append (first second : List JournalEntry) :
    exports (first ++ second) = exports first ++ exports second :=
  List.filterMap_append

theorem mem_withdrawals {entries : List JournalEntry} {number : Int} {hash : Word} :
    (number, hash) ∈ withdrawals entries ↔ .withdrawn number hash ∈ entries := by
  simp only [withdrawals, List.mem_filterMap]
  constructor
  · rintro ⟨entry, hmem, heq⟩
    cases entry <;> simp_all
  · exact fun hmem => ⟨_, hmem, rfl⟩

theorem mem_deliveries {entries : List JournalEntry} {block : Block} :
    block ∈ deliveries entries ↔ .delivered block ∈ entries := by
  simp only [deliveries, List.mem_filterMap]
  constructor
  · rintro ⟨entry, hmem, heq⟩
    cases entry <;> simp_all
  · exact fun hmem => ⟨_, hmem, rfl⟩

theorem mem_reports {entries : List JournalEntry} {message : String} {error : Error} :
    (message, error) ∈ reports entries ↔ .reported message error ∈ entries := by
  simp only [reports, List.mem_filterMap]
  constructor
  · rintro ⟨entry, hmem, heq⟩
    cases entry <;> simp_all
  · exact fun hmem => ⟨_, hmem, rfl⟩

theorem deliveries_eq_nil {entries : List JournalEntry}
    (hretrieves : ∀ entry ∈ entries, Retrieves entry) : deliveries entries = [] := by
  rw [List.eq_nil_iff_forall_not_mem]
  intro block hblock
  exact hretrieves _ (mem_deliveries.mp hblock)

theorem lastDelivered_append_of_eq_nil {past entries : List JournalEntry}
    (hnone : deliveries entries = []) (number : Int) :
    lastDelivered (past ++ entries) number = lastDelivered past number := by
  simp [lastDelivered, hnone]

theorem lastDelivered_append_delivered (past : List JournalEntry) (block : Block) :
    lastDelivered (past ++ [.delivered block]) block.number = some block := by
  simp [lastDelivered, deliveries]

theorem lastDelivered_append_delivered_of_ne (past : List JournalEntry) {block : Block}
    {number : Int} (hne : block.number ≠ number) :
    lastDelivered (past ++ [.delivered block]) number = lastDelivered past number := by
  simp [lastDelivered, deliveries, hne]

theorem exports_takeWhile_append {entries : List JournalEntry}
    (hnone : exports (entries.takeWhile (!IsDelivery ·)) = []) (past : List JournalEntry) :
    exports ((past ++ entries).takeWhile (!IsDelivery ·)) =
      exports (past.takeWhile (!IsDelivery ·)) := by
  induction past with
  | nil => exact hnone
  | cons entry past ih => cases entry <;> simp_all [exports, IsDelivery]

theorem processed_append {entries : List JournalEntry}
    (hnone : exports (entries.takeWhile (!IsDelivery ·)) = []) (past : List JournalEntry) :
    processed (past ++ entries) = processed past ++ processed entries := by
  induction past with
  | nil => rfl
  | cons entry past ih =>
      cases entry <;> simp [processed, ih, exports_takeWhile_append hnone]

theorem processed_of_deliveries {entries : List JournalEntry} (hnone : deliveries entries = []) :
    processed entries = [] := by
  induction entries with
  | nil => rfl
  | cons entry entries ih => cases entry <;> simp_all [processed, deliveries]

theorem takeWhile_of_deliveries {entries : List JournalEntry} (hnone : deliveries entries = []) :
    entries.takeWhile (!IsDelivery ·) = entries := by
  rw [List.takeWhile_eq_self_iff]
  intro entry hentry
  cases entry with
  | delivered block => exact absurd (mem_deliveries.mpr hentry) (by simp [hnone])
  | _ => rfl

theorem processed_append_of_eq_nil {entries : List JournalEntry} (hnone : deliveries entries = [])
    (hexports : exports entries = []) (past : List JournalEntry) :
    processed (past ++ entries) = processed past := by
  rw [processed_append (by rwa [takeWhile_of_deliveries hnone]), processed_of_deliveries hnone,
    List.append_nil]

/-- A block that is handed over last is processed with all records that are exported then. -/
theorem processed_append_delivered {entries : List JournalEntry}
    (hnone : deliveries entries = []) (past : List JournalEntry) (block : Block) :
    processed (past ++ .delivered block :: entries) =
      processed past ++ [(block, exports entries)] := by
  rw [processed_append rfl, processed, processed_of_deliveries hnone, takeWhile_of_deliveries hnone]

theorem split_append {past entries before after : List JournalEntry} {entry : JournalEntry}
    (hsplit : past ++ entries = before ++ entry :: after) :
    (∃ rest, past = before ++ entry :: rest ∧ after = rest ++ entries) ∨
      ∃ middle, entries = middle ++ entry :: after ∧ before = past ++ middle := by
  rcases List.append_eq_append_iff.mp hsplit with ⟨middle, hbefore, hentries⟩ | ⟨rest, hpast, hrest⟩
  · exact Or.inr ⟨middle, hentries, hbefore⟩
  · rcases List.cons_eq_append_iff.mp hrest with ⟨rfl, hentries⟩ | ⟨rest, rfl, hafter⟩
    · exact Or.inr ⟨[], hentries, by simp [hpast]⟩
    · exact Or.inl ⟨rest, hpast, hafter⟩

theorem split_at_delivered {entries : List JournalEntry} {index : Nat} {block : Block}
    (hdelivered : deliveries ((entries.drop index).take 1) = [block]) :
    entries = entries.take index ++ .delivered block :: entries.drop (index + 1) := by
  conv_lhs => rw [← List.take_append_drop index entries]
  rw [← List.drop_drop]
  cases hrest : entries.drop index with
  | nil => simp [hrest, deliveries] at hdelivered
  | cons entry rest => cases entry <;> simp_all [deliveries]

theorem split_at_withdrawn {entries : List JournalEntry} {index : Nat} {number : Int}
    {hash : Word} (hwithdrawn : withdrawals ((entries.drop index).take 1) = [(number, hash)]) :
    entries = entries.take index ++ .withdrawn number hash :: entries.drop (index + 1) := by
  conv_lhs => rw [← List.take_append_drop index entries]
  rw [← List.drop_drop]
  cases hrest : entries.drop index with
  | nil => simp [hrest, withdrawals] at hwithdrawn
  | cons entry rest => cases entry <;> simp_all [withdrawals]

end Journal

namespace RunState

variable {σ : Type}

/-- What has been entered into the journal since an earlier state, the oldest entry first. -/
def since (later earlier : RunState σ) : List JournalEntry :=
  (later.journal.take (later.journal.length - earlier.journal.length)).reverse

theorem since_eq {earlier later : RunState σ} {entries : List JournalEntry}
    (hjournal : later.journal = entries.reverse ++ earlier.journal) :
    later.since earlier = entries := by
  simp [since, hjournal]

end RunState

namespace Run

variable {σ α : Type}

/-- A request on a closed connection fails without asking; otherwise the answer
of the client is entered and decides how the request ends. -/
theorem run_request (ask : Client σ → σ → Except Failure α × σ)
    (entry : Except Failure α → JournalEntry) (words : String) (settings : Settings σ)
    (state : RunState σ) :
    (request ask entry words).run settings state =
      if state.closed then .failed .readerClosed state
      else
        match ask settings.client state.chain with
        | (.ok result, chain) =>
          .ok result { state with chain, journal := entry (.ok result) :: state.journal }
        | (.error failure, chain) =>
          .failed (.ofFailure words failure)
            { state with chain, journal := entry (.error failure) :: state.journal } := by
  unfold request
  cases hclosed : state.closed
  · rcases hask : ask settings.client state.chain with ⟨answer | answer, chain⟩ <;>
      simp [hclosed, hask, note]
  · simp [hclosed]

/-- A state after a failure has been reported in it: the failure has entered the
journal and the error log. -/
def reported (message : String) (error : Error) (settings : Settings σ) (state : RunState σ) :
    RunState σ :=
  { state with
    folder := state.folder.append errorLogName (logLine settings.stamp message error)
    journal := .reported message error :: state.journal }

theorem run_report (message : String) (error : Error) (settings : Settings σ)
    (state : RunState σ) :
    (report message error).run settings state = .ok () (reported message error settings state) :=
  rfl

/-- A failure that is no abort is reported, and the settings decide how the run goes on. -/
theorem run_settle {error : Error} (hreported : error.isAborted = false) (message : String)
    (settings : Settings σ) (state : RunState σ) :
    (settle message error).run settings state =
      if settings.abortOnFailure then
        .failed (.aborted error) (reported message error settings state)
      else .ok () (reported message error settings state) := by
  cases habort : settings.abortOnFailure <;> simp [settle, hreported, run_report, habort]

end Run

end ChainExtract
