import ChainExtract.Proofs.BlockRange.Entries
import ChainExtract.Proofs.BlockRange.Retrieval

/-! # Blocks that are left out

A range that comes to its end leaves a block out only after a request that was
made for this very block has failed: a poll while the chain was awaited to reach
it, the request for the block, or one of those for the blocks below it that its
parent hash made necessary. What fails in the turn of another number leaves no
other block out.
-/

namespace ChainExtract.BlockRange

open Journal

variable {σ : Type}

/-- Answered polls of the chain's head. -/
def polls (heads : List Int) : List JournalEntry := heads.map fun head => .head (.ok head)

/-- Answered requests that lead from a block down to a place below it: no parent hash is that of
the newest remembered block, which is given up. -/
inductive Descends : (number place : Int) → List JournalEntry → Prop
  | here {number : Int} : Descends number number []
  | further {place : Int} {block : Block} {known : KnownBlock} {entries : List JournalEntry}
      (hparent : known.2 ≠ block.parentHash)
      (hdescends : Descends (block.number - 1) place entries) :
      Descends block.number place
        (.block block.number (.ok block) :: .withdrawn known.1 known.2 :: entries)

/-- The requests that were made for a block, the last of which failed, and the failure. -/
inductive Refuses (number : Int) : List JournalEntry → Error → Prop
  | poll {heads : List Int} (hwaited : ∀ head ∈ heads, head < number) (request : String)
      (failure : Failure) :
      Refuses number (polls heads ++ [.head (.error failure)]) (.ofFailure request failure)
  | block {heads : List Int} {head place : Int} {walk : List JournalEntry}
      (hwaited : ∀ head ∈ heads, head < number) (hreached : number ≤ head)
      (hdescends : Descends number place walk) (request : String) (failure : Failure) :
      Refuses number (polls (heads ++ [head]) ++ walk ++ [.block place (.error failure)])
        (.ofFailure request failure)
  /-- On a closed connection no request is made. -/
  | closed : Refuses number [] .readerClosed

/-- The block of a number was reported as not retrievable, right after a request that was made
for it had failed. -/
def Unretrieved (entries : List JournalEntry) (number : Int) : Prop :=
  ∃ before requests error after, Refuses number requests error ∧
    entries = before ++ requests ++ .reported (retrievalMessage number) error :: after

theorem Unretrieved.append {past : List JournalEntry} {number : Int}
    (hpast : Unretrieved past number) (entries : List JournalEntry) :
    Unretrieved (past ++ entries) number := by
  obtain ⟨before, requests, error, after, hrefuses, rfl⟩ := hpast
  exact ⟨before, requests, error, after ++ entries, hrefuses, by simp⟩

/-- Every number from the first up to the one that comes next has been delivered or could
not be retrieved. -/
def Covered (first : Int) (entries : List JournalEntry) (next : Int) : Prop :=
  ∀ number, first ≤ number → number < next →
    (∃ block ∈ deliveries entries, block.number = number) ∨ Unretrieved entries number

theorem Covered.append {first next : Int} {past : List JournalEntry}
    (hcovered : Covered first past next) (entries : List JournalEntry) :
    Covered first (past ++ entries) next := by
  intro number hfirst hnext
  rcases hcovered number hfirst hnext with ⟨block, hmem, hnumber⟩ | hunretrieved
  · exact Or.inl ⟨block, by simp [hmem], hnumber⟩
  · exact Or.inr (hunretrieved.append entries)

section

variable {settings : Settings σ} {state after : RunState σ} {number : Int}

/-- A poll on an open connection leaves it open, and enters its answer. -/
theorem run_latest (settings : Settings σ) (hopen : state.closed = false) :
    ∃ polled, polled.closed = false ∧
      ((∃ request failure, Run.latest.run settings state =
          .failed (.ofFailure request failure) polled ∧
        polled.journal = .head (.error failure) :: state.journal) ∨
      ∃ head, Run.latest.run settings state = .ok head polled ∧
        polled.journal = .head (.ok head) :: state.journal) := by
  rw [Run.latest, Run.run_request, hopen]
  rcases settings.client.head state.chain with ⟨failure | head, chain⟩
  · exact ⟨{ state with chain, closed := false, journal := _ }, rfl, Or.inl ⟨_, failure, rfl, rfl⟩⟩
  · exact ⟨{ state with chain, closed := false, journal := _ }, rfl, Or.inr ⟨head, rfl, rfl⟩⟩

theorem run_waitFor_succ (patience : Nat) :
    (Run.waitFor number (patience + 1)).run settings state =
      match Run.latest.run settings state with
      | .ok head polled =>
        if head < number then (Run.waitFor number patience).run settings polled else .ok () polled
      | .failed error polled => .failed error polled
      | .unfinished (s := stuck) => .unfinished (s := stuck) := by
  rw [Run.waitFor, Run.run_bind]
  cases Run.latest.run settings state with
  | ok head polled => by_cases hhead : head < number <;> simp [hhead]
  | failed | unfinished => rfl

theorem run_waitFor_of_ok {patience : Nat} (hopen : state.closed = false)
    (hrun : (Run.waitFor number patience).run settings state = .ok () after) :
    ∃ heads head, (∀ head ∈ heads, head < number) ∧ number ≤ head ∧
      after.journal = (polls (heads ++ [head])).reverse ++ state.journal ∧
      after.closed = false := by
  induction patience generalizing state with
  | zero => cases hrun
  | succ patience ih =>
      rw [run_waitFor_succ] at hrun
      obtain ⟨polled, hpolled, ⟨_, _, hlatest, _⟩ | ⟨head, hlatest, hjournal⟩⟩ :=
        run_latest settings hopen
      · simp [hlatest] at hrun
      rw [hlatest] at hrun
      by_cases hhead : head < number
      · obtain ⟨heads, last, hwaited, hreached, hafter, hclosed⟩ :=
          ih hpolled (by simpa [hhead] using hrun)
        refine ⟨head :: heads, last, ?_, hreached, by simp [hafter, hjournal, polls], hclosed⟩
        exact List.forall_mem_cons.mpr ⟨hhead, hwaited⟩
      · simp only [hhead, ↓reduceIte] at hrun
        cases hrun
        exact ⟨[], head, by simp, by omega, by simp [hjournal, polls], hpolled⟩

theorem run_waitFor_of_failed {patience : Nat} {error : Error} (hopen : state.closed = false)
    (hrun : (Run.waitFor number patience).run settings state = .failed error after) :
    ∃ heads request failure, (∀ head ∈ heads, head < number) ∧
      error = .ofFailure request failure ∧
      after.journal =
        (polls heads ++ [JournalEntry.head (.error failure)]).reverse ++ state.journal := by
  induction patience generalizing state with
  | zero => cases hrun
  | succ patience ih =>
      rw [run_waitFor_succ] at hrun
      obtain ⟨polled, hpolled, ⟨request, failure, hlatest, hjournal⟩ | ⟨head, hlatest, hjournal⟩⟩ :=
        run_latest settings hopen
      · rw [hlatest] at hrun
        cases hrun
        exact ⟨[], request, failure, by simp, rfl, by simp [hjournal, polls]⟩
      · rw [hlatest] at hrun
        by_cases hhead : head < number
        · obtain ⟨heads, request, failure, hwaited, herror, hafter⟩ :=
            ih hpolled (by simpa [hhead] using hrun)
          refine ⟨head :: heads, request, failure, ?_, herror, by simp [hafter, hjournal, polls]⟩
          exact List.forall_mem_cons.mpr ⟨hhead, hwaited⟩
        · simp [hhead] at hrun

theorem run_waitFor_of_closed (settings : Settings σ) (number : Int) (patience : Nat)
    (hclosed : state.closed = true) :
    (Run.waitFor number patience).run settings state = .unfinished (s := state) ∨
      (Run.waitFor number patience).run settings state = .failed .readerClosed state := by
  cases patience with
  | zero => exact Or.inl rfl
  | succ patience =>
      refine Or.inr ?_
      rw [run_waitFor_succ, Run.latest, Run.run_request, hclosed]
      rfl

/-- A walk back fails with the last of its requests, unless the connection is closed. -/
theorem WalksBack.descends {window : Window} {entries : List JournalEntry}
    {result : Except Error (Block × Window)} {error : Error}
    (hwalk : WalksBack window number entries result) (hresult : result = .error error)
    (hrefusal : error.IsRefusal) :
    error = .readerClosed ∨ ∃ place walk request failure, Descends number place walk ∧
      error = .ofFailure request failure ∧ entries = walk ++ [.block place (.error failure)] := by
  induction hwalk with
  | closed =>
      cases hresult
      exact Or.inl rfl
  | refused request failure =>
      cases hresult
      exact Or.inr ⟨_, [], request, failure, .here, rfl, rfl⟩
  | exhausted =>
      cases hresult
      exact hrefusal.elim
  | confirmed => cases hresult
  | withdrew _ hparent _ ih =>
      rcases ih hresult with hclosed | ⟨place, walk, request, failure, hdescends, herror, rfl⟩
      · exact Or.inl hclosed
      · exact Or.inr ⟨place, _, request, failure, .further hparent hdescends, herror, rfl⟩

theorem maintains_confirm_of_open (settings : Settings σ) (window : Window) (number : Int) :
    (confirm window number).Maintains settings (fun state => state.closed = false)
      (fun _ => True) (· ≠ .readerClosed) :=
  maintains_confirm ⟨fun _ h => h, fun _ _ h => h, fun _ _ _ h => h⟩
    (fun _ hopen hclosed => by simp [hopen] at hclosed) (by simp [Error.ofFailure]) (by simp)
    window number

/-- A fetch ends in the failure of the polls, or walks the window back once the chain has
reached the number. -/
theorem run_fetch_error {window : Window} {error : Error}
    (hfetch : (fetch window number).run settings state = .ok (.error error) after) :
    (Run.waitFor number settings.patience).run settings state = .failed error after ∨
      ∃ polled, (Run.waitFor number settings.patience).run settings state = .ok () polled ∧
        (confirm window number).run settings polled = .failed error after := by
  rw [fetch, Run.run_attempt, Run.run_bind, Run.run_settings] at hfetch
  simp only [Run.run_bind] at hfetch
  cases hwait : (Run.waitFor number settings.patience).run settings state with
  | ok _ polled =>
      rw [hwait] at hfetch
      simp only at hfetch
      refine Or.inr ⟨polled, rfl, ?_⟩
      cases hconfirm : (confirm window number).run settings polled <;> rw [hconfirm] at hfetch <;>
        cases hfetch
      rfl
  | failed =>
      rw [hwait] at hfetch
      cases hfetch
      exact Or.inl rfl
  | unfinished =>
      rw [hwait] at hfetch
      cases hfetch

/-- What a fetch that fails enters are the requests for its block, the last of which failed. -/
theorem refuses_of_fetch (hnumbered : settings.client.Numbered) {window : Window} {error : Error}
    (hfetch : (fetch window number).run settings state = .ok (.error error) after)
    (hrefusal : error.IsRefusal) : Refuses number (after.since state) error := by
  cases hopen : state.closed with
  | true =>
      have hwait := run_waitFor_of_closed settings number settings.patience hopen
      rcases run_fetch_error hfetch with hfailed | ⟨polled, hok, _⟩
      · rw [hfailed] at hwait
        obtain ⟨rfl, rfl⟩ : error = .readerClosed ∧ after = state := by simpa using hwait
        have hsince : after.since after = [] := RunState.since_eq rfl
        rw [hsince]
        exact .closed
      · simp [hok] at hwait
  | false =>
      rcases run_fetch_error hfetch with hfailed | ⟨polled, hok, hfailed⟩
      · obtain ⟨heads, request, failure, hwaited, rfl, hjournal⟩ :=
          run_waitFor_of_failed hopen hfailed
        rw [RunState.since_eq hjournal]
        exact .poll hwaited request failure
      · obtain ⟨heads, head, hwaited, hreached, hpolled, hclosed⟩ := run_waitFor_of_ok hopen hok
        obtain ⟨entries, result, walked, hwalk, hjournal, hrun⟩ :=
          confirm_walksBack hnumbered window number polled
        have hconfirm := maintains_confirm_of_open settings window number polled hclosed
        rw [Run.run_attempt, hfailed] at hrun
        rw [hfailed] at hconfirm
        obtain ⟨rfl, rfl⟩ : .error error = result ∧ after = walked := by simpa using hrun
        obtain hreader | ⟨place, walk, request, failure, hdescends, rfl, rfl⟩ :=
          hwalk.descends rfl hrefusal
        · exact absurd hreader hconfirm.2
        · have hsince : after.since state =
              polls (heads ++ [head]) ++ walk ++ [.block place (.error failure)] :=
            RunState.since_eq (by simp [hjournal, hpolled])
          rw [hsince]
          exact .block hwaited hreached hdescends request failure

theorem Fetches.number_le {window kept : Window} {next : Int} {entries : List JournalEntry}
    {block : Block} (hfetch : Fetches window next entries (.ok (block, kept))) :
    block.number ≤ next := by
  cases hfetch with
  | polled answers hwalk =>
      obtain ⟨_, _, hnumber, _⟩ := hwalk.of_ok
      omega

/-- What a turn passes over it has delivered, or it could not be retrieved. -/
theorem Covered.turn (hnumbered : settings.client.Numbered) {body : Run σ Unit} {first : Int}
    {past : List JournalEntry} {window kept : Window} {next : Int} {final : RunState σ}
    (hcovered : Covered first past next)
    (hturn : (turn body window next).run settings state = .ok (kept, number) final) :
    Covered first (past ++ turnEntries settings window next state) number := by
  rcases run_fetch hnumbered window next state with
    ⟨_, stuck, _, hrun⟩ | ⟨entries, result, fetched, hfetch, hjournal, hrun⟩
  · rw [BlockRange.turn, Run.run_bind, hrun] at hturn
    cases hturn
  rcases result with error | ⟨block, kept⟩
  · rcases hfetch.error_kind rfl with hrefusal | ⟨place, depth, rfl⟩
    · rw [run_turn_of_refusal hrefusal hrun] at hturn
      obtain rfl : number = next + 1 := by
        split at hturn <;> cases hturn
        rfl
      intro place hfirst hplace
      by_cases hbefore : place < next
      · exact hcovered.append _ place hfirst hbefore
      · obtain rfl : place = next := by omega
        refine Or.inr
          ⟨past, fetched.since state, error, [], refuses_of_fetch hnumbered hrun hrefusal, ?_⟩
        rw [turnEntries_of_refusal hrefusal hrun, List.append_assoc]
    · obtain ⟨reported, hfailed, _⟩ := run_turn_of_discontinuity body hrun
      rw [hfailed] at hturn
      cases hturn
  · rw [run_turn_of_ok hrun] at hturn
    obtain rfl : number = block.number + 1 := by
      split at hturn <;> cases hturn
      rfl
    have hle := hfetch.number_le
    intro place hfirst hplace
    by_cases hbefore : place < block.number
    · exact hcovered.append _ place hfirst (by omega)
    · refine Or.inl ⟨block, ?_, by omega⟩
      rw [turnEntries_of_ok hrun]
      simp [mem_deliveries]

/-- A range that comes to its end leaves a block out only if it was reported as not retrievable,
right after a request that was made for this block had failed. Other failures leave out nothing. -/
theorem unretrieved_of_not_delivered (hnumbered : settings.client.Numbered) (body : Run σ Unit)
    {first last : Int}
    (hrun : (visitAll body first (some last)).run settings state = .ok () after)
    (hfirst : first ≤ number) (hlast : number ≤ last)
    (hnone : ∀ block ∈ deliveries (rangeEntries body first (some last) settings state),
      block.number ≠ number) :
    Unretrieved (rangeEntries body first (some last) settings state) number := by
  have hstart : Covered first [] first := by
    intro place hplace hbelow
    omega
  obtain ⟨window, next, hbeyond, hcovered⟩ := visitFrom_ok_induction_of_run
    (fun past _ next => Covered first past next)
    (fun _ _ _ _ _ _ _ _ hcovered hturn => hcovered.turn hnumbered hturn) hstart hrun
  have hnext : last < next := by simpa [isBeyond] using hbeyond
  rcases hcovered number hfirst (by omega) with ⟨block, hmem, hnumber⟩ | hunretrieved
  · exact absurd hnumber (hnone block hmem)
  · exact hunretrieved

end

/-- A chain that forks at block 2 while block 3 is asked for, and refuses the request for the new
block 2: block 3 is left out, block 2 had been delivered before. -/
theorem unretrieved_of_not_delivered_forked :
    (forkingSettings 2 2 [3]).client.Numbered ∧
      (∃ final, (visitAll (pure ()) 1 (some 4)).run (forkingSettings 2 2 [3]) forkingStart =
        .ok () final) ∧
      (∀ block ∈ deliveries (rangeEntries (pure ()) 1 (some 4) (forkingSettings 2 2 [3]) forkingStart),
        block.number ≠ 3) ∧
      Unretrieved (rangeEntries (pure ()) 1 (some 4) (forkingSettings 2 2 [3]) forkingStart) 3 := by
  obtain ⟨_, final, hrun⟩ := Outcome.exists_of_isOk (show
    ((visitAll (pure ()) 1 (some 4)).run (forkingSettings 2 2 [3]) forkingStart).isOk = true by
      decide +kernel)
  have hnone : ∀ block ∈ deliveries
      (rangeEntries (pure ()) 1 (some 4) (forkingSettings 2 2 [3]) forkingStart),
        block.number ≠ 3 := by decide +kernel
  exact ⟨forkingSettings_numbered 2 2 [3], ⟨final, hrun⟩, hnone,
    unretrieved_of_not_delivered (forkingSettings_numbered 2 2 [3]) (pure ()) hrun (by decide)
      (by decide) hnone⟩

/-- A chain that does not fork, but refuses the poll before the request for block 2. The state
of the client counts polls and requests. -/
def interruptedSettings : Settings Nat where
  client :=
    { forkingClient 2 100 [] with
      head count := (if count = 2 then .error ⟨"node down", []⟩ else .ok 39, count + 1) }
  abortOnFailure := false
  patience := 100
  stamp := ""

theorem interruptedSettings_numbered : interruptedSettings.client.Numbered :=
  forkingSettings_numbered 2 100 []

/-- A block can be left out although no request for it has failed: because a poll failed while
it was awaited, because a request for a block below it failed after it had been answered itself,
or because the connection was closed before. -/
theorem omitted_without_refusal :
    (interruptedSettings.client.Numbered ∧
      ((visitAll (pure ()) 1 (some 3)).run interruptedSettings forkingStart).isOk = true ∧
      (deliveries (rangeEntries (pure ()) 1 (some 3) interruptedSettings forkingStart)).map
        (·.number) = [1, 3] ∧
      refusals (rangeEntries (pure ()) 1 (some 3) interruptedSettings forkingStart) = []) ∧
    ((forkingSettings 2 2 [3]).client.Numbered ∧
      ((visitAll (pure ()) 1 (some 4)).run (forkingSettings 2 2 [3]) forkingStart).isOk = true ∧
      (deliveries (rangeEntries (pure ()) 1 (some 4) (forkingSettings 2 2 [3]) forkingStart)).map
        (·.number) = [1, 2, 4] ∧
      refusals (rangeEntries (pure ()) 1 (some 4) (forkingSettings 2 2 [3]) forkingStart) = [2]) ∧
    (interruptedSettings.client.Numbered ∧
      ((visitAll (pure ()) 1 (some 1)).run interruptedSettings
        { forkingStart with closed := true }).isOk = true ∧
      deliveries (rangeEntries (pure ()) 1 (some 1) interruptedSettings
        { forkingStart with closed := true }) = [] ∧
      refusals (rangeEntries (pure ()) 1 (some 1) interruptedSettings
        { forkingStart with closed := true }) = []) := by
  refine ⟨⟨interruptedSettings_numbered, ?_⟩, ⟨forkingSettings_numbered 2 2 [3], ?_⟩,
    interruptedSettings_numbered, ?_⟩ <;> decide +kernel

end ChainExtract.BlockRange
