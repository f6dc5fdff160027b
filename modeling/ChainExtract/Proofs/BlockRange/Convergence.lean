import ChainExtract.Proofs.BlockRange.Alignment
import ChainExtract.Proofs.BlockRange.Journaling
import ChainExtract.Proofs.Export.Files
import Mathlib.Data.Int.Range
import Mathlib.Order.Bounds.Basic

/-! # Convergence

Once the chain has settled on one branch, a range walks back to the newest
remembered block of that branch, and from there delivers each block of the branch
once and in order. It does so from every turn at which it can have arrived,
whatever the chain did before.
-/

namespace ChainExtract

variable {σ : Type}

namespace BlockRange

open Journal

/-- Within so many polls the chain is found to have reached a number, and each poll
leaves the client calm. -/
def Arrives (client : Client σ) (Calm : σ → Prop) (number : Int) : (polls : Nat) → σ → Prop
  | 0, _ => False
  | polls + 1, chain =>
    ∃ head after, client.head chain = (.ok head, after) ∧ Calm after ∧
      (number ≤ head ∨ Arrives client Calm number polls after)

/-- In its calm states a client serves the blocks of a range from one branch, on which
each block names the one below as its parent, and no request is refused. -/
structure Serves (client : Client σ) (branch : Int → Block) (first last : Int) (polls : Nat)
    (Calm : σ → Prop) : Prop where
  head : ∀ chain, Calm chain → Arrives client Calm last polls chain
  block : ∀ number chain, first ≤ number → number ≤ last → Calm chain →
    ∃ after, client.block number chain = (.ok (branch number), after) ∧ Calm after
  linked : ∀ number, first < number → number ≤ last →
    (branch number).parentHash = (branch (number - 1)).hash

/-- The client is calm and the connection to it open. -/
def Settled (Calm : σ → Prop) (state : RunState σ) : Prop :=
  Calm state.chain ∧ state.closed = false

/-- A remembered block belongs to the branch. -/
def Meets (branch : Int → Block) (blocks : List KnownBlock) : Prop :=
  ∃ number, (number, (branch number).hash) ∈ blocks

theorem mem_cons_of_ne {branch : Int → Block} {known : KnownBlock} {rest : List KnownBlock}
    (hne : known.2 ≠ (branch known.1).hash) {number : Int} :
    (number, (branch number).hash) ∈ known :: rest ↔ (number, (branch number).hash) ∈ rest := by
  rw [List.mem_cons, or_iff_right]
  rintro rfl
  exact hne rfl

/-- The number at which a walk back from `next` over remembered blocks ends: the one
above the newest block of the branch, or that of the oldest block. -/
def resumption (branch : Int → Block) (next : Int) : List KnownBlock → Int
  | [] => next
  | (number, hash) :: rest =>
    if hash = (branch number).hash then next else resumption branch (next - 1) rest

theorem resumption_le (branch : Int → Block) (next : Int) (blocks : List KnownBlock) :
    resumption branch next blocks ≤ next ∧
      next - blocks.length ≤ resumption branch next blocks := by
  induction blocks generalizing next with
  | nil => simp [resumption]
  | cons known rest ih =>
      have hrest := ih (next - 1)
      simp only [resumption, List.length_cons]
      split <;> omega

theorem Window.blocks_push (window : Window) (known : KnownBlock) :
    ∃ rest, (window.push known).blocks = known :: rest := by
  unfold Window.push
  split <;> exact ⟨_, rfl⟩

section Range

theorem range_eq_nil {first last : Int} (hle : last ≤ first) : Int.range first last = [] := by
  simp [Int.range, Int.toNat_of_nonpos (show last - first ≤ 0 by omega)]

theorem range_singleton (number : Int) : Int.range number (number + 1) = [number] := by
  simp [Int.range]

theorem range_eq_cons {first last : Int} (hlt : first < last) :
    Int.range first last = first :: Int.range (first + 1) last := by
  have hlength : (last - first).toNat = (last - (first + 1)).toNat + 1 := by omega
  simp only [Int.range, hlength, List.range_succ_eq_map, List.map_cons, List.map_map]
  congr 1
  · simp
  · refine List.map_congr_left fun place _ => ?_
    simp only [Function.comp_apply, Nat.succ_eq_add_one, Int.natCast_add, Int.cast_ofNat_Int]
    omega

theorem range_succ {first last : Int} (hle : first ≤ last) :
    Int.range first (last + 1) = Int.range first last ++ [last] := by
  have hlength : (last + 1 - first).toNat = (last - first).toNat + 1 := by omega
  simp only [Int.range, hlength, List.range_succ, List.map_append, List.map_cons, List.map_nil]
  congr 2
  omega

end Range

section Serving

variable {settings : Settings σ} {branch : Int → Block} {first last next : Int}
variable {Calm : σ → Prop} {window : Window} {state : RunState σ}

theorem run_waitFor_of_arrives {polls : Nat} (hnext : next ≤ last)
    (harrives : Arrives settings.client Calm last polls state.chain)
    (hopen : state.closed = false) :
    ∃ (answers : List (Except Failure Int)) (after : RunState σ),
      after.journal = (answers.map JournalEntry.head).reverse ++ state.journal ∧
      Settled Calm after ∧ (Run.waitFor next polls).run settings state = .ok () after := by
  induction polls generalizing state with
  | zero => exact harrives.elim
  | succ polls ih =>
      obtain ⟨head, chain, hask, hcalm, hlater⟩ := harrives
      rw [Run.waitFor, Run.run_bind, Run.latest, Run.run_request, hopen, hask]
      by_cases hhead : head < next
      · obtain ⟨answers, after, hjournal, hsettled, hrun⟩ :=
          @ih { state with chain, closed := false, journal := .head (.ok head) :: state.journal }
            (hlater.resolve_left (by omega)) rfl
        refine ⟨.ok head :: answers, after, ?_, hsettled, ?_⟩
        · rw [hjournal]
          simp
        · simpa [hhead] using hrun
      · refine ⟨[.ok head], { state with chain, closed := false, journal := _ }, rfl,
          ⟨hcalm, rfl⟩, ?_⟩
        simp [hhead]

theorem run_blockOf_of_serves {polls : Nat}
    (hserves : Serves settings.client branch first last polls Calm) {number : Int}
    (hfirst : first ≤ number) (hlast : number ≤ last) (hsettled : Settled Calm state) :
    ∃ after, (Run.blockOf number).run settings state = .ok (branch number) after ∧
      after.journal = .block number (.ok (branch number)) :: state.journal ∧
      Settled Calm after := by
  obtain ⟨chain, hask, hcalm⟩ := hserves.block number state.chain hfirst hlast hsettled.1
  rw [Run.blockOf, Run.run_request, hsettled.2, hask]
  exact ⟨_, rfl, rfl, hcalm, rfl⟩

/-- A walk back from a number asks for the blocks down to the resumption. It confirms the block
there, unless no remembered block belongs to the branch and older ones are forgotten. -/
structure WalksDown (settings : Settings σ) (branch : Int → Block) (Calm : σ → Prop)
    (window : Window) (number : Int) (state after : RunState σ)
    (entries : List JournalEntry) : Prop where
  journal : after.journal = entries.reverse ++ state.journal
  settled : Settled Calm after
  requests : requests entries =
    (Int.range (resumption branch number window.blocks) (number + 1)).reverse
  deliveries : deliveries entries = []
  found : Meets branch window.blocks ∨ window.truncated = false → ∃ rest kept,
    kept.blocks = (resumption branch number window.blocks,
      (branch (resumption branch number window.blocks)).hash) :: rest ∧
    (confirm window number).run settings state =
      .ok (branch (resumption branch number window.blocks), kept) after
  lost : ¬ Meets branch window.blocks → window.truncated = true →
    (confirm window number).run settings state =
      .failed (.discontinuity (resumption branch number window.blocks) window.capacity) after

section Walking

variable {number : Int} {asked after : RunState σ} {known : KnownBlock} {rest : List KnownBlock}
variable {entries : List JournalEntry}

/-- Nothing is remembered, so the block is confirmed if nothing is forgotten. -/
theorem WalksDown.of_nil (hblocks : window.blocks = [])
    (hrun : (Run.blockOf number).run settings state = .ok (branch number) asked)
    (hjournal : asked.journal = .block number (.ok (branch number)) :: state.journal)
    (hasked : Settled Calm asked) :
    WalksDown settings branch Calm window number state asked
      [.block number (.ok (branch number))] where
  journal := hjournal
  settled := hasked
  requests := by
    rw [hblocks, resumption, range_singleton]
    rfl
  deliveries := rfl
  found := by
    rw [hblocks]
    rintro (⟨place, hmem⟩ | hwhole)
    · cases hmem
    · obtain ⟨rest, hrest⟩ := Window.blocks_push window (number, (branch number).hash)
      refine ⟨rest, _, hrest, ?_⟩
      rw [run_confirm_of_nil hrun hblocks, hwhole]
      rfl
  lost := by
    intro _ htruncated
    rw [run_confirm_of_nil hrun hblocks, htruncated, hblocks]
    rfl

/-- The newest remembered block is on the branch, so the block is confirmed at once. -/
theorem WalksDown.of_newest (hblocks : window.blocks = known :: rest)
    (hsame : known.2 = (branch known.1).hash)
    (hparent : (branch number).parentHash = (branch known.1).hash)
    (hrun : (Run.blockOf number).run settings state = .ok (branch number) asked)
    (hjournal : asked.journal = .block number (.ok (branch number)) :: state.journal)
    (hasked : Settled Calm asked) :
    WalksDown settings branch Calm window number state asked
      [.block number (.ok (branch number))] := by
  have hresumption : resumption branch number window.blocks = number := by
    simp [hblocks, resumption, hsame]
  constructor
  case journal => exact hjournal
  case settled => exact hasked
  case deliveries => rfl
  case requests =>
    rw [hresumption, range_singleton]
    rfl
  case found =>
    intro _
    obtain ⟨older, holder⟩ := Window.blocks_push window (number, (branch number).hash)
    rw [hresumption]
    refine ⟨older, _, holder, ?_⟩
    rw [run_confirm_of_cons hrun hblocks, hparent, if_pos hsame]
  case lost =>
    intro hapart
    exact absurd ⟨known.1, by simp [hblocks, ← hsame]⟩ hapart

/-- The newest remembered block is not on the branch: it is given up, and the walk goes on with the
block below. -/
theorem WalksDown.of_withdrawn (hblocks : window.blocks = known :: rest)
    (hne : known.2 ≠ (branch known.1).hash)
    (hparent : (branch number).parentHash = (branch known.1).hash)
    (hrun : (Run.blockOf number).run settings state = .ok (branch number) asked)
    (hjournal : asked.journal = .block number (.ok (branch number)) :: state.journal)
    (hwalk : WalksDown settings branch Calm window.pop (number - 1)
      { asked with journal := .withdrawn known.1 known.2 :: asked.journal } after entries) :
    WalksDown settings branch Calm window number state after
      (.block number (.ok (branch number)) :: .withdrawn known.1 known.2 :: entries) := by
  have hpop : window.pop.blocks = rest := by simp [Window.pop, hblocks]
  have hresumption : resumption branch number window.blocks =
      resumption branch (number - 1) window.pop.blocks := by
    simp [hblocks, hpop, resumption, hne]
  have hmeets : Meets branch window.blocks ↔ Meets branch window.pop.blocks := by
    rw [hblocks, hpop]
    exact exists_congr fun _ => mem_cons_of_ne hne
  have hconfirm : (confirm window number).run settings state = (confirm window.pop (number - 1)).run
      settings { asked with journal := .withdrawn known.1 known.2 :: asked.journal } := by
    rw [run_confirm_of_cons hrun hblocks, hparent, if_neg hne]
  have hle := (resumption_le branch (number - 1) window.pop.blocks).1
  constructor
  case journal =>
    rw [hwalk.journal, hjournal]
    simp
  case settled => exact hwalk.settled
  case deliveries => exact hwalk.deliveries
  case requests =>
    have hrequests := hwalk.requests
    rw [Int.sub_add_cancel] at hrequests
    rw [hresumption, range_succ (by omega), List.reverse_append, ← hrequests]
    rfl
  case found =>
    rw [hresumption, hmeets, hconfirm]
    exact hwalk.found
  case lost =>
    rw [hresumption, hmeets, hconfirm]
    exact hwalk.lost

end Walking

theorem run_confirm_of_serves {polls : Nat}
    (hserves : Serves settings.client branch first last polls Calm) {number : Int}
    (hcounts : Window.CountsDown number window.blocks)
    (hfirst : first ≤ number - window.blocks.length) (hlast : number ≤ last)
    (hsettled : Settled Calm state) :
    ∃ entries after, WalksDown settings branch Calm window number state after entries := by
  induction hblocks : window.blocks generalizing window number state with
  | nil =>
      rw [hblocks] at hfirst
      obtain ⟨asked, hrun, hjournal, hasked⟩ := run_blockOf_of_serves hserves
        (by simpa using hfirst) hlast hsettled
      exact ⟨_, asked, .of_nil hblocks hrun hjournal hasked⟩
  | cons known rest ih =>
      rw [hblocks] at hcounts hfirst
      rw [List.length_cons] at hfirst
      obtain ⟨asked, hrun, hjournal, hasked⟩ := run_blockOf_of_serves hserves
        (by omega) hlast hsettled
      obtain ⟨hknown, hrest⟩ := hcounts
      have hparent : (branch number).parentHash = (branch known.1).hash := by
        rw [hknown]
        exact hserves.linked number (by omega) hlast
      by_cases hsame : known.2 = (branch known.1).hash
      · exact ⟨_, asked, .of_newest hblocks hsame hparent hrun hjournal hasked⟩
      · have hpop : window.pop.blocks = rest := by simp [Window.pop, hblocks]
        obtain ⟨entries, after, hwalk⟩ :=
          @ih window.pop { asked with journal := .withdrawn known.1 known.2 :: asked.journal }
            (number - 1) (hpop ▸ hrest) (by rw [hpop]; omega) (by omega) hasked hpop
        exact ⟨_, after, .of_withdrawn hblocks hsame hparent hrun hjournal hwalk⟩

/-- The chain is polled until it has reached the number, and then the window is walked back. -/
theorem run_fetch_of_serves
    (hserves : Serves settings.client branch first last settings.patience Calm)
    (hcounts : Window.CountsDown next window.blocks)
    (hfirst : first ≤ next - window.blocks.length) (hnext : next ≤ last)
    (hsettled : Settled Calm state) :
    ∃ (answers : List (Except Failure Int)) (entries : List JournalEntry)
      (polled fetched : RunState σ),
      fetched.since state = answers.map JournalEntry.head ++ entries ∧
      WalksDown settings branch Calm window next polled fetched entries ∧
      ∀ result, (confirm window next).attempt.run settings polled = .ok result fetched →
        (fetch window next).run settings state = .ok result fetched := by
  obtain ⟨answers, polled, hpolled, hwaited, hwait⟩ :=
    run_waitFor_of_arrives hnext (hserves.head _ hsettled.1) hsettled.2
  obtain ⟨entries, fetched, hwalk⟩ := run_confirm_of_serves hserves hcounts hfirst hnext hwaited
  refine ⟨answers, entries, polled, fetched, RunState.since_eq ?_, hwalk, fun result hconfirm => ?_⟩
  · rw [hwalk.journal, hpolled]
    simp
  · rw [fetch, Run.run_attempt, Run.run_bind, Run.run_settings]
    simp only [Run.run_bind]
    rw [hwait]
    exact hconfirm

theorem Serves.number_eq (hnumbered : settings.client.Numbered) {polls : Nat}
    (hserves : Serves settings.client branch first last polls Calm) {number : Int}
    (hfirst : first ≤ number) (hlast : number ≤ last) (hsettled : Settled Calm state) :
    (branch number).number = number := by
  obtain ⟨after, hask, _⟩ := hserves.block number state.chain hfirst hlast hsettled.1
  exact hnumbered number state.chain _ (by rw [hask])

end Serving

/-- In settled states every visit of a block of the branch succeeds, and the state stays
settled: failures of the body do not end the range. -/
def VisitsCalmly (settings : Settings σ) (body : Run σ Unit) (branch : Int → Block)
    (first last : Int) (Calm : σ → Prop) : Prop :=
  ∀ number, first ≤ number → number ≤ last →
    (visit body (branch number)).Succeeds settings (Settled Calm) fun _ => True

section Visiting

variable {settings : Settings σ} {Calm : σ → Prop}

theorem succeeds_conclude (habort : settings.abortOnFailure = false)
    {outcome : Except Error Unit}
    (houtcome : ∀ error, outcome = .error error → error.isAborted = false) (message : String) :
    (Run.conclude message outcome).Succeeds settings (Settled Calm) fun _ => True := by
  cases outcome with
  | ok => exact Run.succeeds_pure trivial
  | error error =>
      intro state hsettled
      refine ⟨(), Run.reported message error settings state, ?_, hsettled, trivial⟩
      rw [Run.conclude, Run.run_settle (houtcome error rfl), habort]
      rfl

theorem succeeds_finish (extent : Extent) :
    (Run.finish extent).Succeeds settings (Settled Calm) fun failure? =>
      ∀ error, failure? = some error → error.isAborted = false :=
  fun _ hsettled => ⟨_, _, rfl, hsettled, fun _ hfailure => by
    obtain ⟨_, _, rfl⟩ := Folder.unwritten_of_writeAll hfailure
    rfl⟩

theorem VisitsCalmly.of_body (habort : settings.abortOnFailure = false) {body : Run σ Unit}
    (hbody : body.attempt.Succeeds settings (Settled Calm) fun outcome =>
      ∀ error, outcome = .error error → error.isAborted = false)
    (branch : Int → Block) (first last : Int) :
    VisitsCalmly settings body branch first last Calm := by
  intro number _ _
  have hcursor (cursor : Cursor) :
      (Run.setCursor cursor : Run σ Unit).Succeeds settings (Settled Calm) fun _ => True :=
    Run.succeeds_modify fun _ hsettled => hsettled
  refine Run.Succeeds.bind (Run.succeeds_modify fun _ hsettled => hsettled) fun _ _ => ?_
  refine (hcursor _).bind fun _ _ => Run.Succeeds.bind (Run.Succeeds.attempt ?_)
    fun outcome houtcome => (hcursor _).bind fun _ _ => ?_
  · refine hbody.bind fun outcome houtcome => (succeeds_conclude habort houtcome _).bind fun _ _ =>
      (succeeds_finish _).bind fun failure? hfailure => succeeds_conclude habort ?_ _
    intro error herror
    cases failure? with
    | none => cases herror
    | some failure =>
        cases herror
        exact hfailure error rfl
  · obtain ⟨_, rfl⟩ := houtcome
    exact Run.succeeds_pure trivial

end Visiting

section Turning

variable {settings : Settings σ} {body : Run σ Unit} {branch : Int → Block}
variable {first last next : Int} {Calm : σ → Prop} {window : Window} {state : RunState σ}

/-- A turn that finds its block has asked for the blocks from `next` down to the resumption, and
visits the block there. -/
theorem run_turn_of_found (hnumbered : settings.client.Numbered)
    (hserves : Serves settings.client branch first last settings.patience Calm)
    (hvisits : VisitsCalmly settings body branch first last Calm)
    (hcounts : Window.CountsDown next window.blocks)
    (hfirst : first ≤ next - window.blocks.length) (hnext : next ≤ last)
    (hsettled : Settled Calm state)
    (hmeets : Meets branch window.blocks ∨ window.truncated = false) :
    requests (turnEntries settings window next state) =
        (Int.range (resumption branch next window.blocks) (next + 1)).reverse ∧
      deliveries (turnEntries settings window next state) =
        [branch (resumption branch next window.blocks)] ∧
      ∃ rest kept after,
        kept.blocks = (resumption branch next window.blocks,
          (branch (resumption branch next window.blocks)).hash) :: rest ∧
        Settled Calm after ∧
        (turn body window next).run settings state =
          .ok (kept, resumption branch next window.blocks + 1) after := by
  obtain ⟨answers, entries, polled, fetched, hsince, hwalk, hfetch⟩ :=
    run_fetch_of_serves hserves hcounts hfirst hnext hsettled
  obtain ⟨rest, kept, hkept, hconfirm⟩ := hwalk.found hmeets
  have hrun := hfetch (.ok _) (by rw [Run.run_attempt, hconfirm])
  obtain ⟨habove, hbelow⟩ := resumption_le branch next window.blocks
  have hplace := Int.le_trans hfirst hbelow
  obtain ⟨_, visited, hvisit, hcalm, _⟩ :=
    hvisits _ hplace (Int.le_trans habove hnext) fetched hwalk.settled
  have hnumber := hserves.number_eq hnumbered hplace (Int.le_trans habove hnext) hwalk.settled
  rw [turnEntries_of_ok hrun, hsince, List.append_assoc, requests_polled, deliveries_polled,
    requests_append, deliveries_append, hwalk.requests, hwalk.deliveries]
  refine ⟨List.append_nil _, rfl, rest, kept, visited, hkept, hcalm, ?_⟩
  rw [run_turn_of_ok hrun, hvisit, hnumber]

/-- A turn that finds nothing of the branch in a window that has forgotten blocks has asked for the
blocks down to the oldest one that is remembered, and ends the range. -/
theorem run_turn_of_lost (body : Run σ Unit)
    (hserves : Serves settings.client branch first last settings.patience Calm)
    (hcounts : Window.CountsDown next window.blocks)
    (hfirst : first ≤ next - window.blocks.length) (hnext : next ≤ last)
    (hsettled : Settled Calm state) (hapart : ¬ Meets branch window.blocks)
    (htruncated : window.truncated = true) :
    requests (turnEntries settings window next state) =
        (Int.range (resumption branch next window.blocks) (next + 1)).reverse ∧
      deliveries (turnEntries settings window next state) = [] ∧
      ∃ after, (turn body window next).run settings state = .failed
        (.aborted (.discontinuity (resumption branch next window.blocks) window.capacity))
        after := by
  obtain ⟨answers, entries, polled, fetched, hsince, hwalk, hfetch⟩ :=
    run_fetch_of_serves hserves hcounts hfirst hnext hsettled
  have hrun := hfetch (.error _) (by rw [Run.run_attempt, hwalk.lost hapart htruncated])
  obtain ⟨after, hturn, _⟩ := run_turn_of_discontinuity body hrun
  rw [turnEntries_of_discontinuity hrun, hsince, List.append_assoc, requests_polled,
    deliveries_polled, requests_append, deliveries_append, hwalk.requests, hwalk.deliveries]
  exact ⟨List.append_nil _, rfl, after, hturn⟩

theorem run_visitFrom_steady (hnumbered : settings.client.Numbered)
    (hserves : Serves settings.client branch first last settings.patience Calm)
    (hvisits : VisitsCalmly settings body branch first last Calm) {start : RunState σ}
    (hreaches : Reaches body first (some last) settings start window next state)
    {rest : List KnownBlock}
    (hparent : window.blocks = (next - 1, (branch (next - 1)).hash) :: rest)
    (hsettled : Settled Calm state) {patience : Nat} (hpatience : last - next < patience) :
    requests (visitEntries body (some last) settings patience window next state) =
        Int.range next (last + 1) ∧
      deliveries (visitEntries body (some last) settings patience window next state) =
        (Int.range next (last + 1)).map branch ∧
      ∃ after, (visitFrom body (some last) patience window next).run settings state =
        .ok () after := by
  -- each turn confirms its block at once, since the newest remembered block is its parent
  induction patience generalizing window next state rest with
  | zero =>
      have hbeyond : isBeyond (some last) next = true := by
        simp only [isBeyond, Option.any_some, decide_eq_true_eq]
        omega
      rw [range_eq_nil (by omega), run_visitFrom_of_beyond hbeyond]
      exact ⟨rfl, rfl, state, rfl⟩
  | succ patience ih =>
      cases hnext : isBeyond (some last) next with
      | true =>
          have hlast : last < next := by simpa [isBeyond] using hnext
          simp only [visitEntries, hnext, ↓reduceIte, run_visitFrom_of_beyond hnext]
          rw [range_eq_nil (by omega)]
          exact ⟨rfl, rfl, state, rfl⟩
      | false =>
          have hlast : next ≤ last := by simpa [isBeyond] using hnext
          obtain ⟨haligned, _⟩ := hreaches.aligned hnumbered
          have hmeets : Meets branch window.blocks := ⟨next - 1, by simp [hparent]⟩
          have hresumption : resumption branch next window.blocks = next := by
            simp [hparent, resumption]
          obtain ⟨hrequests, hdeliveries, older, kept, after, hkept, hafter, hturn⟩ :=
            run_turn_of_found hnumbered hserves hvisits haligned.countsDown
              (hreaches.first_le hnumbered) hlast hsettled (Or.inl hmeets)
          rw [hresumption] at hrequests hdeliveries hkept hturn
          obtain ⟨hlater, hdelivered, hrun⟩ := ih (hreaches.turn hnext hturn)
            (by simpa using hkept) hafter (by omega)
          simp only [visitEntries, hnext, Bool.false_eq_true, ↓reduceIte, hturn,
            requests_append, deliveries_append, hrequests, hdeliveries, hlater, hdelivered,
            run_visitFrom_succ hnext]
          rw [range_singleton, range_eq_cons (show next < last + 1 by omega)]
          exact ⟨rfl, rfl, hrun⟩

theorem run_visitFrom_of_serves (hnumbered : settings.client.Numbered)
    (hserves : Serves settings.client branch first last settings.patience Calm)
    (hvisits : VisitsCalmly settings body branch first last Calm) {start : RunState σ}
    (hreaches : Reaches body first (some last) settings start window next state)
    (hnext : next ≤ last) (hsettled : Settled Calm state)
    (hmeets : Meets branch window.blocks ∨ window.truncated = false) {place : Int}
    (hplace : resumption branch next window.blocks = place) {patience : Nat}
    (hpatience : last - place < patience) :
    requests (visitEntries body (some last) settings patience window next state) =
        (Int.range place (next + 1)).reverse ++ Int.range (place + 1) (last + 1) ∧
      deliveries (visitEntries body (some last) settings patience window next state) =
        (Int.range place (last + 1)).map branch ∧
      ∃ after, (visitFrom body (some last) patience window next).run settings state =
        .ok () after := by
  obtain ⟨haligned, _⟩ := hreaches.aligned hnumbered
  obtain ⟨hrequests, hdeliveries, older, kept, after, hkept, hafter, hturn⟩ :=
    run_turn_of_found hnumbered hserves hvisits haligned.countsDown (hreaches.first_le hnumbered)
      hnext hsettled hmeets
  have hle := (resumption_le branch next window.blocks).1
  rw [hplace] at hrequests hdeliveries hkept hturn hle
  have hinside : isBeyond (some last) next = false := by simpa [isBeyond] using hnext
  -- one turn walks back to the place, and from there on the turns are steady
  cases patience with
  | zero => omega
  | succ patience =>
      obtain ⟨hlater, hdelivered, hrun⟩ := run_visitFrom_steady hnumbered hserves hvisits
        (hreaches.turn hinside hturn) (by simpa using hkept) hafter
        (show last - (place + 1) < patience by omega)
      simp only [visitEntries, hinside, Bool.false_eq_true, ↓reduceIte, hturn, requests_append,
        deliveries_append, hrequests, hdeliveries, hlater, hdelivered, run_visitFrom_succ hinside]
      rw [range_eq_cons (show place < last + 1 by omega)]
      exact ⟨trivial, rfl, hrun⟩

theorem run_visitFrom_of_lost (hnumbered : settings.client.Numbered)
    (hserves : Serves settings.client branch first last settings.patience Calm)
    {start : RunState σ}
    (hreaches : Reaches body first (some last) settings start window next state)
    (hnext : next ≤ last) (hsettled : Settled Calm state) (hapart : ¬ Meets branch window.blocks)
    (htruncated : window.truncated = true) {place : Int}
    (hplace : resumption branch next window.blocks = place) {patience : Nat}
    (hpatience : last - place < patience) :
    requests (visitEntries body (some last) settings patience window next state) =
        (Int.range place (next + 1)).reverse ∧
      deliveries (visitEntries body (some last) settings patience window next state) = [] ∧
      ∃ after, (visitFrom body (some last) patience window next).run settings state =
        .failed (.aborted (.discontinuity place Window.rangeCapacity)) after := by
  obtain ⟨haligned, hcapacity⟩ := hreaches.aligned hnumbered
  obtain ⟨hrequests, hdeliveries, after, hturn⟩ := run_turn_of_lost body hserves
    haligned.countsDown (hreaches.first_le hnumbered) hnext hsettled hapart htruncated
  have hle := (resumption_le branch next window.blocks).1
  rw [hplace] at hrequests hturn hle
  have hinside : isBeyond (some last) next = false := by simpa [isBeyond] using hnext
  cases patience with
  | zero => omega
  | succ patience =>
      simp only [visitEntries, hinside, Bool.false_eq_true, ↓reduceIte, hturn, List.append_nil,
        hrequests, hdeliveries, run_visitFrom_succ hinside, hcapacity]
      exact ⟨trivial, trivial, after, rfl⟩

end Turning

/-- The place is one above the newest remembered block of the branch or, if there is none,
that of the oldest remembered block, or `next` if nothing is remembered. -/
def ResumesAt (branch : Int → Block) (window : Window) (next place : Int) : Prop :=
  IsGreatest {number | (number, (branch number).hash) ∈ window.blocks} (place - 1) ∨
    (¬ Meets branch window.blocks ∧ place = (window.blocks.getLast?.map (·.1)).getD next)

theorem ResumesAt.resumption_eq {branch : Int → Block} {window : Window} {next place : Int}
    (hcounts : Window.CountsDown next window.blocks)
    (hresumes : ResumesAt branch window next place) :
    resumption branch next window.blocks = place := by
  obtain ⟨capacity, blocks, truncated⟩ := window
  simp only [ResumesAt] at hcounts hresumes ⊢
  induction blocks generalizing next with
  | nil =>
      rcases hresumes with hgreatest | ⟨_, hplace⟩
      · cases hgreatest.1
      · exact hplace.symm
  | cons known rest ih =>
      have hbelow {number : Int} {hash : Word} (hmem : (number, hash) ∈ known :: rest) :
          number < next := (hcounts.mem hmem).2
      obtain ⟨hknown, hrest⟩ := hcounts
      -- numbers count down, so a newest block on the branch is the greatest one there
      by_cases hsame : known.2 = (branch known.1).hash
      · have hmem : (known.1, (branch known.1).hash) ∈ known :: rest := by simp [← hsame]
        rcases hresumes with hgreatest | ⟨hapart, _⟩
        · have hle := hgreatest.2 hmem
          have hlt := hbelow hgreatest.1
          simp only [resumption, hsame, ↓reduceIte]
          omega
        · exact absurd ⟨known.1, hmem⟩ hapart
      · simp only [resumption, hsame, ↓reduceIte]
        have holdest : ((known :: rest).getLast?.map (·.1)).getD next =
            (rest.getLast?.map (·.1)).getD (next - 1) := by
          rw [List.getLast?_cons]
          cases rest.getLast? <;> simp [hknown]
        rw [holdest] at hresumes
        apply ih hrest
        simpa only [mem_cons_of_ne hsame, Meets] using hresumes

/-- Once the chain has settled on a branch, a range delivers from any turn at which it can
have arrived exactly the blocks of the branch from the place where it resumes, each once and
in order, and asks for the blocks down to that place and up again. The one exception is a
window that remembers nothing of the branch and has forgotten older blocks. -/
theorem converges_of_serves {settings : Settings σ} (hnumbered : settings.client.Numbered)
    {body : Run σ Unit} {branch : Int → Block} {first last : Int} {Calm : σ → Prop}
    (hserves : Serves settings.client branch first last settings.patience Calm)
    (hvisits : VisitsCalmly settings body branch first last Calm)
    {start state : RunState σ} {window : Window} {next : Int}
    (hreaches : Reaches body first (some last) settings start window next state)
    (hnext : next ≤ last) (hsettled : Settled Calm state) {place : Int}
    (hresumes : ResumesAt branch window next place) {patience : Nat}
    (hpatience : last - place < patience) :
    (Meets branch window.blocks ∨ window.truncated = false →
      requests (visitEntries body (some last) settings patience window next state) =
          (Int.range place (next + 1)).reverse ++ Int.range (place + 1) (last + 1) ∧
        deliveries (visitEntries body (some last) settings patience window next state) =
          (Int.range place (last + 1)).map branch ∧
        ∃ after, (visitFrom body (some last) patience window next).run settings state =
          .ok () after) ∧
      (¬ Meets branch window.blocks → window.truncated = true →
        requests (visitEntries body (some last) settings patience window next state) =
            (Int.range place (next + 1)).reverse ∧
          deliveries (visitEntries body (some last) settings patience window next state) = [] ∧
          ∃ after, (visitFrom body (some last) patience window next).run settings state =
            .failed (.aborted (.discontinuity place Window.rangeCapacity)) after) := by
  have hplace := hresumes.resumption_eq (hreaches.aligned hnumbered).1.countsDown
  constructor
  · intro hmeets
    exact run_visitFrom_of_serves hnumbered hserves hvisits hreaches hnext hsettled hmeets hplace
      hpatience
  · intro hapart htruncated
    exact run_visitFrom_of_lost hnumbered hserves hreaches hnext hsettled hapart htruncated hplace
      hpatience

/-- Block 2 was replaced after blocks 1 and 2 had been delivered: the range walks back to
block 2 and delivers the new branch from there. -/
theorem converges_of_serves_forked :
    ∃ window state,
      Reaches (pure ()) 1 (some 3) (forkingSettings 2 2 []) forkingStart window 3 state ∧
      window.blocks = [(2, branchHash false 2), (1, branchHash false 1)] ∧
      requests (visitEntries (pure ()) (some 3) (forkingSettings 2 2 []) 100 window 3 state) =
        [3, 2, 3] ∧
      deliveries (visitEntries (pure ()) (some 3) (forkingSettings 2 2 []) 100 window 3 state) =
        [branchBlock 2 true 2, branchBlock 2 true 3] := by
  have hturns : (afterTurns (pure ()) (some 3) (forkingSettings 2 2 []) 2
      { capacity := Window.rangeCapacity } 1 forkingStart).map
        (fun place => (place.1, place.2.1, place.2.2.chain, place.2.2.closed)) =
      some ({ capacity := 30, blocks := [(2, branchHash false 2), (1, branchHash false 1)] },
        3, 2, false) := by
    decide +kernel
  obtain ⟨⟨window, next, state⟩, hafter, hplace⟩ := Option.map_eq_some_iff.mp hturns
  simp only [Prod.mk.injEq] at hplace
  obtain ⟨rfl, rfl, hchain, hclosed⟩ := hplace
  have hreaches := Reaches.start.of_afterTurns hafter
  have hserves : Serves (forkingClient 2 2 []) (branchBlock 2 true) 1 3 100 (2 ≤ ·) := by
    refine ⟨fun count hcount => ⟨39, count, rfl, hcount, Or.inl (by decide)⟩, ?_, ?_⟩
    · intro number count _ _ hcount
      refine ⟨count + 1, ?_, Nat.le_succ_of_le hcount⟩
      simp [forkingClient, hcount]
    · intro number _ _
      rfl
  have hvisits : VisitsCalmly (forkingSettings 2 2 []) (pure ()) (branchBlock 2 true) 1 3 (2 ≤ ·) :=
    VisitsCalmly.of_body rfl (fun state hsettled =>
      ⟨.ok (), state, rfl, hsettled, fun _ herror => by cases herror⟩) _ _ _
  have hmeets : (1, (branchBlock 2 true 1).hash) ∈
      [((2 : Int), branchHash false 2), (1, branchHash false 1)] := by
    decide +kernel
  have hresumes : ResumesAt (branchBlock 2 true)
      { capacity := 30, blocks := [(2, branchHash false 2), (1, branchHash false 1)] } 3 2 := by
    refine Or.inl ⟨hmeets, fun number hmem => ?_⟩
    rcases List.mem_cons.mp hmem with hnewest | holder
    · obtain ⟨rfl, hhash⟩ := Prod.mk.inj hnewest
      exact absurd hhash (by decide +kernel)
    · obtain ⟨rfl, _⟩ := Prod.mk.inj (List.mem_singleton.mp holder)
      decide
  obtain ⟨hrequests, hdeliveries, _⟩ := (converges_of_serves
    (forkingSettings_numbered 2 2 []) hserves hvisits hreaches (by decide)
    ⟨hchain.symm ▸ Nat.le_refl 2, hclosed⟩ hresumes (show (3 : Int) - 2 < (100 : Nat) by decide)).1
      (Or.inr rfl)
  exact ⟨_, state, hreaches, rfl, hrequests, hdeliveries⟩

/-- Along a branch that does not change, a range delivers each of its blocks once and in order. -/
theorem run_visitAll_of_serves {settings : Settings σ} (hnumbered : settings.client.Numbered)
    {body : Run σ Unit} {branch : Int → Block} {first last : Int} {Calm : σ → Prop}
    (hserves : Serves settings.client branch first last settings.patience Calm)
    (hvisits : VisitsCalmly settings body branch first last Calm) (hle : first ≤ last)
    {start : RunState σ} (hsettled : Settled Calm start)
    (hpatience : last - first < settings.patience) :
    requests (rangeEntries body first (some last) settings start) = Int.range first (last + 1) ∧
      deliveries (rangeEntries body first (some last) settings start) =
        (Int.range first (last + 1)).map branch ∧
      ∃ after, (visitAll body first (some last)).run settings start = .ok () after := by
  obtain ⟨hrequests, hdeliveries, hrun⟩ := run_visitFrom_of_serves hnumbered hserves hvisits
    Reaches.start hle hsettled (Or.inr rfl) rfl hpatience
  refine ⟨?_, hdeliveries, hrun⟩
  rw [range_eq_cons (show first < last + 1 by omega)]
  simpa [rangeEntries, resumption, range_singleton] using hrequests

/-- Along a branch that does not change, the journal of a run has the blocks of the branch and
no others, each once and in order, if the body of the range has no range of its own. -/
theorem journal_of_serves {settings : Settings σ} (hnumbered : settings.client.Numbered)
    {body : Run σ Unit}
    (hbody : ∀ start, body.Upholds settings (RunState.Makes (¬ OfRange ·) [] start))
    {branch : Int → Block} {first last : Int} {Calm : σ → Prop}
    (hserves : Serves settings.client branch first last settings.patience Calm)
    (hvisits : VisitsCalmly settings body branch first last Calm) (hle : first ≤ last)
    {start : RunState σ} (hsettled : Settled Calm start)
    (hpatience : last - first < settings.patience) :
    ∃ after, (visitAll body first (some last)).run settings start = .ok () after ∧
      requests (after.since start) = Int.range first (last + 1) ∧
      deliveries (after.since start) = (Int.range first (last + 1)).map branch := by
  obtain ⟨hrequests, hdeliveries, after, hrun⟩ :=
    run_visitAll_of_serves hnumbered hserves hvisits hle hsettled hpatience
  have hagree := agreeOnBlocks_of_visitAll hnumbered hbody first (some last) start
  rw [hrun] at hagree
  exact ⟨after, hrun, hagree.requests.trans hrequests, hagree.deliveries.trans hdeliveries⟩

end BlockRange

end ChainExtract
