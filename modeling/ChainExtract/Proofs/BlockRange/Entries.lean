import ChainExtract.Proofs.BlockRange.WalkBack
import ChainExtract.Proofs.Keeps

/-! # What a range does itself

The entries that the visits of a range make in the journal themselves: polls
and requests with their answers, blocks given up, blocks handed to the body, and
blocks reported as not retrievable. Entries of the body are left out, so the body
may be anything, even a range of its own. Each turn of the visits is a step of
a transition system on windows and numbers, whose labels are these entries.
-/

namespace ChainExtract

variable {σ : Type}

/-- The failures of requests: they come from the chain or from a closed connection. -/
def Error.IsRefusal : Error → Prop
  | .readerClosed | .query _ _ => True
  | _ => False

namespace BlockRange

/-- How a block is fetched: the chain is polled, and then the window walked back. -/
inductive Fetches (window : Window) (next : Int) :
    List JournalEntry → Except Error (Block × Window) → Prop
  | unpolled (answers : List (Except Failure Int)) {error : Error} (hrefusal : error.IsRefusal) :
      Fetches window next (answers.map .head) (.error error)
  | polled (answers : List (Except Failure Int)) {entries : List JournalEntry}
      {result : Except Error (Block × Window)} (hwalk : WalksBack window next entries result) :
      Fetches window next (answers.map .head ++ entries) result

/-- One turn of the visits, and the window and number it goes on with, if it does. -/
inductive Turns (window : Window) (next : Int) : List JournalEntry → Option (Window × Int) → Prop
  | visited {entries : List JournalEntry} {block : Block} {after : Window}
      (hfetch : Fetches window next entries (.ok (block, after))) :
      Turns window next (entries ++ [.delivered block]) (some (after, block.number + 1))
  | skipped {entries : List JournalEntry} {error : Error}
      (hfetch : Fetches window next entries (.error error)) (hrefusal : error.IsRefusal) :
      Turns window next (entries ++ [.reported (retrievalMessage next) error])
        (some (window.reset, next + 1))
  | lost {entries : List JournalEntry} {number : Int} {depth : Nat}
      (hfetch : Fetches window next entries (.error (.discontinuity number depth))) :
      Turns window next
        (entries ++ [.reported "cannot continue extracting blocks" (.discontinuity number depth)])
        none
  /-- The chain never reached the number. -/
  | waiting : Turns window next [] none

/-- The entries that a turn makes itself. -/
def turnEntries (settings : Settings σ) (window : Window) (next : Int) (state : RunState σ) :
    List JournalEntry :=
  match (fetch window next).run settings state with
  | .ok (.ok (block, _)) fetched => fetched.since state ++ [.delivered block]
  | .ok (.error (.discontinuity number depth)) fetched =>
    fetched.since state ++
      [.reported "cannot continue extracting blocks" (.discontinuity number depth)]
  | .ok (.error error) fetched => fetched.since state ++ [.reported (retrievalMessage next) error]
  | .failed _ _ | .unfinished => []

/-- The entries that visits from a number on make themselves. -/
def visitEntries (body : Run σ Unit) (last : Option Int) (settings : Settings σ) :
    (patience : Nat) → Window → (next : Int) → RunState σ → List JournalEntry
  | 0, _, _, _ => []
  | patience + 1, window, next, state =>
    if isBeyond last next then []
    else
      turnEntries settings window next state ++
        match (turn body window next).run settings state with
        | .ok (window, next) after => visitEntries body last settings patience window next after
        | .failed _ _ | .unfinished => []

/-- The entries that a range makes itself. -/
def rangeEntries (body : Run σ Unit) (first : Int) (last : Option Int) (settings : Settings σ)
    (state : RunState σ) : List JournalEntry :=
  visitEntries body last settings settings.patience { capacity := Window.rangeCapacity } first state

/-- The turns at which a range can arrive: window, number and state. -/
inductive Reaches (body : Run σ Unit) (first : Int) (last : Option Int) (settings : Settings σ)
    (start : RunState σ) : Window → Int → RunState σ → Prop
  | start : Reaches body first last settings start { capacity := Window.rangeCapacity } first start
  | turn {window after : Window} {next number : Int} {state final : RunState σ}
      (hreaches : Reaches body first last settings start window next state)
      (hnext : isBeyond last next = false)
      (hturn : (BlockRange.turn body window next).run settings state = .ok (after, number) final) :
      Reaches body first last settings start after number final

/-- Where a range stands after a number of turns. -/
def afterTurns (body : Run σ Unit) (last : Option Int) (settings : Settings σ) :
    (turns : Nat) → Window → Int → RunState σ → Option (Window × Int × RunState σ)
  | 0, window, next, state => some (window, next, state)
  | turns + 1, window, next, state =>
    if isBeyond last next then none
    else
      match (turn body window next).run settings state with
      | .ok (window, next) after => afterTurns body last settings turns window next after
      | .failed _ _ | .unfinished => none

theorem Reaches.of_afterTurns {body : Run σ Unit} {first : Int} {last : Option Int}
    {settings : Settings σ} {start state final : RunState σ} {turns : Nat}
    {window after : Window} {next number : Int}
    (hreaches : Reaches body first last settings start window next state)
    (hturns : afterTurns body last settings turns window next state =
      some (after, number, final)) :
    Reaches body first last settings start after number final := by
  induction turns generalizing window next state with
  | zero =>
      cases hturns
      exact hreaches
  | succ turns ih =>
      rw [afterTurns] at hturns
      cases hnext : isBeyond last next with
      | true => simp [hnext] at hturns
      | false =>
          cases hturn : (BlockRange.turn body window next).run settings state with
          | ok follow middle =>
              exact ih (hreaches.turn hnext hturn) (by simpa [hnext, hturn] using hturns)
          | failed | unfinished => simp [hnext, hturn] at hturns

theorem run_visitFrom_of_beyond {body : Run σ Unit} {last : Option Int} {next : Int}
    (hbeyond : isBeyond last next = true) (patience : Nat) (window : Window)
    (settings : Settings σ) (state : RunState σ) :
    (visitFrom body last patience window next).run settings state = .ok () state := by
  unfold visitFrom
  simp [hbeyond]

theorem run_visitFrom_zero {body : Run σ Unit} {last : Option Int} {next : Int}
    (hnext : isBeyond last next = false) (window : Window) (settings : Settings σ)
    (state : RunState σ) :
    (visitFrom body last 0 window next).run settings state = .unfinished (s := state) := by
  unfold visitFrom
  simp [hnext]

theorem run_visitFrom_succ {body : Run σ Unit} {last : Option Int} {next : Int}
    (hnext : isBeyond last next = false) (patience : Nat) (window : Window)
    (settings : Settings σ) (state : RunState σ) :
    (visitFrom body last (patience + 1) window next).run settings state =
      match (turn body window next).run settings state with
      | .ok follow after => (visitFrom body last patience follow.1 follow.2).run settings after
      | .failed error after => .failed error after
      | .unfinished (s := after) => .unfinished (s := after) := by
  rw [visitFrom]
  simp only [hnext, Bool.false_eq_true, ↓reduceIte, Run.run_bind]
  cases (turn body window next).run settings state <;> rfl

/-- A range that comes to its end has arrived there turn by turn. -/
theorem Reaches.of_visitFrom {body : Run σ Unit} {first : Int} {last : Option Int}
    {settings : Settings σ} {start state final : RunState σ} {patience : Nat} {window : Window}
    {next : Int} (hreaches : Reaches body first last settings start window next state)
    (hrun : (visitFrom body last patience window next).run settings state = .ok () final) :
    ∃ after number, Reaches body first last settings start after number final := by
  induction patience generalizing window next state with
  | zero =>
      cases hnext : isBeyond last next with
      | true =>
          rw [run_visitFrom_of_beyond hnext] at hrun
          cases hrun
          exact ⟨window, next, hreaches⟩
      | false =>
          rw [run_visitFrom_zero hnext] at hrun
          cases hrun
  | succ patience ih =>
      cases hnext : isBeyond last next with
      | true =>
          rw [run_visitFrom_of_beyond hnext] at hrun
          cases hrun
          exact ⟨window, next, hreaches⟩
      | false =>
          rw [run_visitFrom_succ hnext] at hrun
          cases hturn : (BlockRange.turn body window next).run settings state with
          | ok follow middle => exact ih (hreaches.turn hnext hturn) (by simpa [hturn] using hrun)
          | failed | unfinished => simp [hturn] at hrun

theorem run_waitFor (settings : Settings σ) (number : Int) (patience : Nat) (state : RunState σ) :
    ∃ (answers : List (Except Failure Int)) (after : RunState σ),
      after.journal = (answers.map JournalEntry.head).reverse ++ state.journal ∧
      ((Run.waitFor number patience).run settings state = .unfinished (s := after) ∨
        (Run.waitFor number patience).run settings state = .ok () after ∨
        ∃ error, Error.IsRefusal error ∧
          (Run.waitFor number patience).run settings state = .failed error after) := by
  induction patience generalizing state with
  | zero => exact ⟨[], state, rfl, Or.inl rfl⟩
  | succ patience ih =>
      rw [Run.waitFor, Run.run_bind, Run.latest, Run.run_request]
      cases hclosed : state.closed with
      | true => exact ⟨[], state, rfl, Or.inr (Or.inr ⟨.readerClosed, trivial, rfl⟩)⟩
      | false =>
          rcases hask : settings.client.head state.chain with ⟨failure | head, chain⟩
          · refine ⟨[.error failure], _, rfl, Or.inr (Or.inr ⟨_, ?_, rfl⟩)⟩
            trivial
          · by_cases hhead : head < number
            · simp only [hhead, ↓reduceIte, Bool.false_eq_true]
              obtain ⟨answers, after, hjournal, hrun⟩ :=
                ih { state with chain, closed := false, journal := .head (.ok head) :: _ }
              refine ⟨.ok head :: answers, after, ?_, hrun⟩
              rw [hjournal]
              simp
            · refine ⟨[.ok head], { state with chain, closed := false, journal := _ }, rfl,
                Or.inr (Or.inl ?_)⟩
              simp [hhead]

theorem run_fetch {settings : Settings σ} (hnumbered : settings.client.Numbered)
    (window : Window) (next : Int) (state : RunState σ) :
    (∃ (answers : List (Except Failure Int)) (stuck : RunState σ),
      stuck.journal = (answers.map JournalEntry.head).reverse ++ state.journal ∧
      (fetch window next).run settings state = .unfinished (s := stuck)) ∨
      ∃ entries result after, Fetches window next entries result ∧
        after.journal = entries.reverse ++ state.journal ∧
        (fetch window next).run settings state = .ok result after := by
  rw [fetch, Run.run_attempt, Run.run_bind, Run.run_settings]
  simp only [Run.run_bind]
  rcases run_waitFor settings next settings.patience state with
    ⟨answers, polled, hpolled, hwait | hwait | ⟨error, hrefusal, hwait⟩⟩
  · exact Or.inl ⟨answers, polled, hpolled, by rw [hwait]⟩
  · obtain ⟨entries, result, after, hwalk, hjournal, hrun⟩ :=
      confirm_walksBack hnumbered window next polled
    refine Or.inr ⟨_, result, after, .polled answers hwalk, ?_, ?_⟩
    · rw [hjournal, hpolled]
      simp
    · rw [hwait]
      exact hrun
  · exact Or.inr ⟨_, _, polled, .unpolled answers hrefusal, hpolled, by rw [hwait]⟩

theorem Fetches.retrieves {window : Window} {next : Int} {entries : List JournalEntry}
    {result : Except Error (Block × Window)} (hfetch : Fetches window next entries result) :
    ∀ entry ∈ entries, Journal.Retrieves entry := by
  have hpolls (answers : List (Except Failure Int)) :
      ∀ entry ∈ answers.map JournalEntry.head, Journal.Retrieves entry := by
    intro entry hentry
    obtain ⟨_, _, rfl⟩ := List.mem_map.mp hentry
    trivial
  cases hfetch with
  | unpolled answers => exact hpolls answers
  | polled answers hwalk =>
      intro entry hentry
      rcases List.mem_append.mp hentry with hentry | hentry
      · exact hpolls answers entry hentry
      · exact hwalk.retrieves entry hentry

theorem withdrawals_polled (answers : List (Except Failure Int)) (entries : List JournalEntry) :
    Journal.withdrawals (answers.map .head ++ entries) = Journal.withdrawals entries := by
  simp [Journal.withdrawals]

theorem requests_polled (answers : List (Except Failure Int)) (entries : List JournalEntry) :
    Journal.requests (answers.map .head ++ entries) = Journal.requests entries := by
  simp [Journal.requests]

theorem deliveries_polled (answers : List (Except Failure Int)) (entries : List JournalEntry) :
    Journal.deliveries (answers.map .head ++ entries) = Journal.deliveries entries := by
  simp [Journal.deliveries]

theorem WalksBack.error_kind {window : Window} {number : Int} {entries : List JournalEntry}
    {result : Except Error (Block × Window)} {error : Error}
    (hwalk : WalksBack window number entries result) (hresult : result = .error error) :
    error.IsRefusal ∨ ∃ place depth, error = .discontinuity place depth := by
  induction hwalk with
  | closed | refused =>
      cases hresult
      exact Or.inl trivial
  | exhausted =>
      cases hresult
      exact Or.inr ⟨_, _, rfl⟩
  | confirmed => cases hresult
  | withdrew _ _ _ ih => exact ih hresult

theorem Fetches.error_kind {window : Window} {next : Int} {entries : List JournalEntry}
    {result : Except Error (Block × Window)} {error : Error}
    (hfetch : Fetches window next entries result) (hresult : result = .error error) :
    error.IsRefusal ∨ ∃ place depth, error = .discontinuity place depth := by
  cases hfetch with
  | unpolled _ hrefusal =>
      cases hresult
      exact Or.inl hrefusal
  | polled _ hwalk => exact hwalk.error_kind hresult

section

variable {settings : Settings σ} {body : Run σ Unit} {window kept : Window} {next : Int}
variable {state fetched : RunState σ} {block : Block} {error : Error}

theorem run_turn_of_ok
    (hfetch : (fetch window next).run settings state = .ok (.ok (block, kept)) fetched) :
    (turn body window next).run settings state =
      match (visit body block).run settings fetched with
      | .ok () after => .ok (kept, block.number + 1) after
      | .failed error after => .failed error after
      | .unfinished (s := after) => .unfinished (s := after) := by
  rw [turn, Run.run_bind, hfetch]
  simp only [Run.run_bind]
  cases (visit body block).run settings fetched <;> rfl

theorem run_turn_of_discontinuity (body : Run σ Unit) {number : Int} {depth : Nat}
    (hfetch : (fetch window next).run settings state =
      .ok (.error (.discontinuity number depth)) fetched) :
    ∃ after, (turn body window next).run settings state =
        .failed (.aborted (.discontinuity number depth)) after ∧
      after.journal = .reported "cannot continue extracting blocks" (.discontinuity number depth) ::
        fetched.journal := by
  rw [turn, Run.run_bind, hfetch]
  exact ⟨_, rfl, rfl⟩

theorem run_turn_of_refusal (hrefusal : error.IsRefusal)
    (hfetch : (fetch window next).run settings state = .ok (.error error) fetched) :
    (turn body window next).run settings state =
      match (Run.settle (retrievalMessage next) error).run settings fetched with
      | .ok () after => .ok (window.reset, next + 1) after
      | .failed error after => .failed error after
      | .unfinished (s := after) => .unfinished (s := after) := by
  rw [turn, Run.run_bind, hfetch]
  cases error <;> first
    | exact hrefusal.elim
    | simp only [Run.run_bind]
      cases (Run.settle (retrievalMessage next) _).run settings fetched <;> rfl

theorem turnEntries_of_unfinished
    (hfetch : (fetch window next).run settings state = .unfinished (s := fetched)) :
    turnEntries settings window next state = [] := by
  rw [turnEntries, hfetch]

theorem turnEntries_of_ok
    (hfetch : (fetch window next).run settings state = .ok (.ok (block, kept)) fetched) :
    turnEntries settings window next state = fetched.since state ++ [.delivered block] := by
  rw [turnEntries, hfetch]

theorem turnEntries_of_discontinuity {number : Int} {depth : Nat}
    (hfetch : (fetch window next).run settings state =
      .ok (.error (.discontinuity number depth)) fetched) :
    turnEntries settings window next state = fetched.since state ++
      [.reported "cannot continue extracting blocks" (.discontinuity number depth)] := by
  rw [turnEntries, hfetch]

theorem turnEntries_of_refusal (hrefusal : error.IsRefusal)
    (hfetch : (fetch window next).run settings state = .ok (.error error) fetched) :
    turnEntries settings window next state =
      fetched.since state ++ [.reported (retrievalMessage next) error] := by
  rw [turnEntries, hfetch]
  cases error <;> first | rfl | exact hrefusal.elim

/-- The entries of a turn are those of a step of the transition system, and a
turn that goes on does so where the step leads. -/
theorem turns_turnEntries (hnumbered : settings.client.Numbered) (body : Run σ Unit)
    (window : Window) (next : Int) (state : RunState σ) :
    ∃ follow, Turns window next (turnEntries settings window next state) follow ∧
      ∀ after number final,
        (turn body window next).run settings state = .ok (after, number) final →
          follow = some (after, number) := by
  rcases run_fetch hnumbered window next state with
    ⟨_, stuck, _, hrun⟩ | ⟨entries, result, fetched, hfetch, hjournal, hrun⟩
  · refine ⟨none, ?_, ?_⟩
    · rw [turnEntries_of_unfinished hrun]
      exact .waiting
    · intro after number final hturn
      rw [turn, Run.run_bind, hrun] at hturn
      cases hturn
  rcases result with error | ⟨block, kept⟩
  · rcases hfetch.error_kind rfl with hrefusal | ⟨number, depth, rfl⟩
    · refine ⟨some (window.reset, next + 1), ?_, ?_⟩
      · rw [turnEntries_of_refusal hrefusal hrun, RunState.since_eq hjournal]
        exact .skipped hfetch hrefusal
      · intro after number final hturn
        rw [run_turn_of_refusal hrefusal hrun] at hturn
        split at hturn <;> cases hturn
        rfl
    · refine ⟨none, ?_, ?_⟩
      · rw [turnEntries_of_discontinuity hrun, RunState.since_eq hjournal]
        exact .lost hfetch
      · intro after place final hturn
        obtain ⟨reported, hfailed, _⟩ := run_turn_of_discontinuity body hrun
        rw [hfailed] at hturn
        cases hturn
  · refine ⟨some (kept, block.number + 1), ?_, ?_⟩
    · rw [turnEntries_of_ok hrun, RunState.since_eq hjournal]
      exact .visited hfetch
    · intro after number final hturn
      rw [run_turn_of_ok hrun] at hturn
      split at hturn <;> cases hturn
      rfl

end

/-- What every turn that goes on preserves holds when a range has come to its end. -/
theorem visitFrom_ok_induction_of_run {settings : Settings σ} {body : Run σ Unit}
    {last : Option Int} (Inv : List JournalEntry → Window → Int → Prop)
    (hstep : ∀ past window next state after number final, isBeyond last next = false →
      Inv past window next →
        (turn body window next).run settings state = .ok (after, number) final →
          Inv (past ++ turnEntries settings window next state) after number)
    {patience : Nat} {past : List JournalEntry} {window : Window} {next : Int}
    {state final : RunState σ} (hinv : Inv past window next)
    (hrun : (visitFrom body last patience window next).run settings state = .ok () final) :
    ∃ after number, isBeyond last number = true ∧
      Inv (past ++ visitEntries body last settings patience window next state) after number := by
  induction patience generalizing past window next state with
  | zero =>
      cases hnext : isBeyond last next with
      | true => exact ⟨window, next, hnext, by simpa [visitEntries] using hinv⟩
      | false =>
          rw [run_visitFrom_zero hnext] at hrun
          cases hrun
  | succ patience ih =>
      cases hnext : isBeyond last next with
      | true => exact ⟨window, next, hnext, by simpa [visitEntries, hnext] using hinv⟩
      | false =>
          rw [run_visitFrom_succ hnext] at hrun
          simp only [visitEntries, hnext, Bool.false_eq_true, ↓reduceIte, ← List.append_assoc]
          cases hturn : (turn body window next).run settings state with
          | ok result middle =>
              rw [hturn] at hrun
              exact ih (hstep _ _ _ _ _ _ _ hnext hinv hturn) hrun
          | failed | unfinished => cases hturn ▸ hrun

/-- What every step of the transition system preserves holds when a range has come to its end. -/
theorem visitFrom_ok_induction {settings : Settings σ} (hnumbered : settings.client.Numbered)
    {body : Run σ Unit} {last : Option Int} (Inv : List JournalEntry → Window → Int → Prop)
    (hstep : ∀ past window next entries after number, isBeyond last next = false →
      Inv past window next → Turns window next entries (some (after, number)) →
        Inv (past ++ entries) after number)
    {patience : Nat} {past : List JournalEntry} {window : Window} {next : Int}
    {state final : RunState σ} (hinv : Inv past window next)
    (hrun : (visitFrom body last patience window next).run settings state = .ok () final) :
    ∃ after number, isBeyond last number = true ∧
      Inv (past ++ visitEntries body last settings patience window next state) after number := by
  refine visitFrom_ok_induction_of_run Inv ?_ hinv hrun
  intro past window next state after number final hnext hinv hturn
  obtain ⟨follow, hturns, hfollow⟩ := turns_turnEntries hnumbered body window next state
  rw [hfollow after number final hturn] at hturns
  exact hstep _ _ _ _ _ _ hnext hinv hturns

/-- What every turn preserves holds of the entries so far, wherever a range stops. -/
theorem visitEntries_induction {settings : Settings σ} (hnumbered : settings.client.Numbered)
    {body : Run σ Unit} {last : Option Int} (Inv : List JournalEntry → Window → Int → Prop)
    (Safe : List JournalEntry → Prop)
    (hsafe : ∀ past window next, Inv past window next → Safe past)
    (hstep : ∀ past window next entries after number, isBeyond last next = false →
      Inv past window next → Turns window next entries (some (after, number)) →
        Inv (past ++ entries) after number)
    (hend : ∀ past window next entries, isBeyond last next = false →
      Inv past window next → Turns window next entries none → Safe (past ++ entries))
    {patience : Nat} {past : List JournalEntry} {window : Window} {next : Int}
    {state : RunState σ} (hinv : Inv past window next) :
    Safe (past ++ visitEntries body last settings patience window next state) := by
  induction patience generalizing past window next state with
  | zero => simpa [visitEntries] using hsafe past window next hinv
  | succ patience ih =>
      cases hnext : isBeyond last next with
      | true => simpa [visitEntries, hnext] using hsafe past window next hinv
      | false =>
          obtain ⟨follow, hturns, hfollow⟩ := turns_turnEntries hnumbered body window next state
          -- the turn may end in its visit, so its entries must be safe whether or not it goes on
          have hpast : Safe (past ++ turnEntries settings window next state) := by
            rcases follow with _ | ⟨after, number⟩
            · exact hend _ _ _ _ hnext hinv hturns
            · exact hsafe _ _ _ (hstep _ _ _ _ _ _ hnext hinv hturns)
          simp only [visitEntries, hnext, Bool.false_eq_true, ↓reduceIte, ← List.append_assoc]
          cases hturn : (turn body window next).run settings state with
          | ok result middle =>
              obtain ⟨after, number⟩ := result
              rw [hfollow after number middle hturn] at hturns
              exact ih (hstep _ _ _ _ _ _ hnext hinv hturns)
          | failed | unfinished => simpa using hpast

/-! ### A chain that forks

A chain of which everything is known, to run ranges against: blocks with
numbers from zero to thirty-nine, and another branch that takes their place at
one of the requests.
-/

/-- The hash of a block in the first branch or in the second. -/
def branchHash (second : Bool) (number : Int) : Word :=
  FixedBytes.ofNat 32 (if second then 100 + number.toNat else number.toNat)

/-- A block without transactions. The second branch begins at number `fork`. -/
def branchBlock (fork : Int) (second : Bool) (number : Int) : Block where
  number
  hash := branchHash (second && fork ≤ number) number
  parentHash := branchHash (second && fork ≤ number - 1) (number - 1)
  timestamp := 0
  miner := .zero 20
  gasUsed := 0
  gasLimit := 0
  difficulty := 0
  extraData := []
  transactions := []

/-- The client of the chain. Its state counts the requests for blocks: the second branch
is there from request number `turnover` on, and the requests in `down` are refused. -/
def forkingClient (fork : Int) (turnover : Nat) (down : List Nat) : Client Nat where
  head count := (.ok 39, count)
  block number count :=
    (if count ∈ down then .error ⟨"node down", []⟩
      else .ok (branchBlock fork (turnover ≤ count) number), count + 1)
  member _ count := (.error ⟨"no contracts", []⟩, count)

/-- The settings of a run against the chain, in which no loop turns more than a hundred times. -/
def forkingSettings (fork : Int) (turnover : Nat) (down : List Nat) : Settings Nat where
  client := forkingClient fork turnover down
  abortOnFailure := false
  patience := 100
  stamp := ""

theorem forkingSettings_numbered (fork : Int) (turnover : Nat) (down : List Nat) :
    (forkingSettings fork turnover down).client.Numbered := by
  intro number count block hblock
  simp only [forkingSettings, forkingClient] at hblock
  split at hblock <;> cases hblock
  rfl

/-- The state in which such a run begins. -/
def forkingStart : RunState Nat := { chain := 0, folder := { path := "" } }

end BlockRange

end ChainExtract
