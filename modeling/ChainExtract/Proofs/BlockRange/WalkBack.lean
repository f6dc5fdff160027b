import ChainExtract.Filter.BlockRange
import ChainExtract.Proofs.Journal
import Mathlib.Tactic.Common

/-! # Walking back

A block that is asked for is confirmed, refused, or followed by the block below
it while remembered blocks are given up. Every way of confirming a block is a
derivation whose steps are the requests; it says what enters the journal, how
many remembered blocks are given up, and which window results.
-/

namespace ChainExtract

variable {σ : Type}

/-- The only assumption about a client: a block it answers has the number it was asked for. -/
def Client.Numbered (client : Client σ) : Prop :=
  ∀ number chain block, (client.block number chain).1 = .ok block → block.number = number

namespace Window

/-- A block may be confirmed on a window if its parent is the newest remembered
block, or if nothing is remembered and nothing had to be forgotten. -/
def Admits (window : Window) (parentHash : Word) : Prop :=
  match window.blocks with
  | [] => window.truncated = false
  | (_, hash) :: _ => hash = parentHash

/-- The remembered blocks have the numbers directly below `next`, in descending order. -/
def CountsDown : Int → List KnownBlock → Prop
  | _, [] => True
  | next, (number, _) :: rest => number = next - 1 ∧ CountsDown (next - 1) rest

theorem CountsDown.append {dropped kept : List KnownBlock} {next : Int}
    (hcounts : CountsDown next (dropped ++ kept)) :
    CountsDown next dropped ∧ CountsDown (next - dropped.length) kept := by
  induction dropped generalizing next with
  | nil => simpa [CountsDown] using hcounts
  | cons known dropped ih =>
      obtain ⟨hnumber, hrest⟩ := hcounts
      obtain ⟨hdropped, hkept⟩ := ih hrest
      refine ⟨⟨hnumber, hdropped⟩, ?_⟩
      convert hkept using 1
      rw [List.length_cons]
      omega

theorem CountsDown.mem {blocks : List KnownBlock} {next number : Int} {hash : Word}
    (hcounts : CountsDown next blocks) (hmem : (number, hash) ∈ blocks) :
    next - blocks.length ≤ number ∧ number < next := by
  induction blocks generalizing next with
  | nil => cases hmem
  | cons known rest ih =>
      obtain ⟨hnumber, hrest⟩ := hcounts
      rw [List.length_cons]
      rcases List.mem_cons.mp hmem with rfl | hmem
      · omega
      · have := ih hrest hmem
        omega

end Window

namespace BlockRange

/-- How a block is asked for and the window walked back: the window and number
to begin with, what enters the journal, and how it ends. -/
inductive WalksBack :
    Window → Int → List JournalEntry → Except Error (Block × Window) → Prop
  /-- No request is made on a closed connection. -/
  | closed {window : Window} {number : Int} : WalksBack window number [] (.error .readerClosed)
  | refused {window : Window} {number : Int} (request : String) (failure : Failure) :
      WalksBack window number [.block number (.error failure)] (.error (.ofFailure request failure))
  /-- All that is remembered has been given up, and older blocks are forgotten. -/
  | exhausted {window : Window} {block : Block} (hblocks : window.blocks = [])
      (htruncated : window.truncated = true) :
      WalksBack window block.number [.block block.number (.ok block)]
        (.error (.discontinuity block.number window.capacity))
  | confirmed {window : Window} {block : Block} (hadmits : window.Admits block.parentHash) :
      WalksBack window block.number [.block block.number (.ok block)]
        (.ok (block, window.push (block.number, block.hash)))
  | withdrew {window : Window} {block : Block} {known : KnownBlock} {rest : List KnownBlock}
      {entries : List JournalEntry} {result : Except Error (Block × Window)}
      (hblocks : window.blocks = known :: rest) (hparent : known.2 ≠ block.parentHash)
      (hwalk : WalksBack window.pop (block.number - 1) entries result) :
      WalksBack window block.number
        (.block block.number (.ok block) :: .withdrawn known.1 known.2 :: entries) result

theorem WalksBack.retrieves {window : Window} {number : Int} {entries : List JournalEntry}
    {result : Except Error (Block × Window)} (hwalk : WalksBack window number entries result) :
    ∀ entry ∈ entries, Journal.Retrieves entry := by
  induction hwalk with
  | closed => simp
  | refused | exhausted | confirmed => simp [Journal.Retrieves]
  | withdrew _ _ _ ih => simpa [Journal.Retrieves] using ih

theorem WalksBack.withdrawals_prefix {window : Window} {number : Int}
    {entries : List JournalEntry} {result : Except Error (Block × Window)}
    (hwalk : WalksBack window number entries result) :
    ∃ kept, window.blocks = Journal.withdrawals entries ++ kept := by
  induction hwalk with
  | closed | refused | exhausted | confirmed => exact ⟨_, rfl⟩
  | withdrew hblocks _ _ ih =>
      obtain ⟨kept, hkept⟩ := ih
      refine ⟨kept, ?_⟩
      simpa [Window.pop, hblocks, Journal.withdrawals] using hkept

theorem WalksBack.of_ok {window after : Window} {number : Int} {entries : List JournalEntry}
    {block : Block} (hwalk : WalksBack window number entries (.ok (block, after))) :
    ∃ kept, window.blocks = Journal.withdrawals entries ++ kept ∧
      block.number = number - (Journal.withdrawals entries).length ∧
      Window.Admits { window with blocks := kept } block.parentHash ∧
      after = Window.push { window with blocks := kept } (block.number, block.hash) := by
  generalize hresult : Except.ok (block, after) = result at hwalk
  induction hwalk with
  | closed | refused | exhausted => cases hresult
  | confirmed hadmits =>
      cases hresult
      exact ⟨_, rfl, by simp [Journal.withdrawals], hadmits, rfl⟩
  | withdrew hblocks _ _ ih =>
      obtain ⟨kept, hkept, hnumber, hadmits, hafter⟩ := ih hresult
      refine ⟨kept, ?_, ?_, hadmits, hafter⟩
      · simpa [Window.pop, hblocks, Journal.withdrawals] using hkept
      · rw [hnumber]
        simp only [Journal.withdrawals, List.filterMap_cons, List.length_cons]
        omega

theorem WalksBack.of_discontinuity {window : Window} {number place : Int} {depth : Nat}
    {entries : List JournalEntry}
    (hwalk : WalksBack window number entries (.error (.discontinuity place depth))) :
    window.blocks = Journal.withdrawals entries ∧ window.truncated = true ∧
      depth = window.capacity := by
  generalize hresult : Except.error (Error.discontinuity place depth) = result at hwalk
  induction hwalk with
  | closed | refused | confirmed => cases hresult
  | exhausted hblocks htruncated =>
      cases hresult
      exact ⟨hblocks, htruncated, rfl⟩
  | withdrew hblocks _ _ ih =>
      obtain ⟨hkept, htruncated, hdepth⟩ := ih hresult
      refine ⟨?_, htruncated, hdepth⟩
      simpa [Window.pop, hblocks, Journal.withdrawals] using hkept

theorem run_blockOf (settings : Settings σ) (number : Int) (state : RunState σ) :
    (Run.blockOf number).run settings state = .failed .readerClosed state ∨
      (∃ request failure after, (Run.blockOf number).run settings state =
          .failed (.ofFailure request failure) after ∧
        after.journal = .block number (.error failure) :: state.journal) ∨
      ∃ block after, (Run.blockOf number).run settings state = .ok block after ∧
        (settings.client.block number state.chain).1 = .ok block ∧
        after.journal = .block number (.ok block) :: state.journal := by
  rw [Run.blockOf, Run.run_request]
  cases hclosed : state.closed with
  | true => exact Or.inl rfl
  | false =>
      rcases hask : settings.client.block number state.chain with ⟨block | failure, chain⟩
      · exact Or.inr (Or.inl ⟨_, _, _, rfl, rfl⟩)
      · exact Or.inr (Or.inr ⟨_, _, rfl, rfl, rfl⟩)

theorem run_confirm_of_failed {window : Window} {number : Int} {settings : Settings σ}
    {state asked : RunState σ} {error : Error}
    (hrun : (Run.blockOf number).run settings state = .failed error asked) :
    (confirm window number).run settings state = .failed error asked := by
  rw [confirm, Run.run_bind, hrun]

theorem run_confirm_of_nil {window : Window} {number : Int} {settings : Settings σ}
    {state asked : RunState σ} {block : Block}
    (hrun : (Run.blockOf number).run settings state = .ok block asked)
    (hblocks : window.blocks = []) :
    (confirm window number).run settings state =
      if window.truncated then .failed (.discontinuity number window.capacity) asked
      else .ok (block, window.push (number, block.hash)) asked := by
  rw [confirm, Run.run_bind, hrun]
  simp only
  split
  next => cases htruncated : window.truncated <;> rfl
  next hcons => cases hblocks.symm.trans hcons

theorem run_confirm_of_cons {window : Window} {number : Int} {settings : Settings σ}
    {state asked : RunState σ} {block : Block} {known : KnownBlock} {rest : List KnownBlock}
    (hrun : (Run.blockOf number).run settings state = .ok block asked)
    (hblocks : window.blocks = known :: rest) :
    (confirm window number).run settings state =
      if known.2 = block.parentHash then .ok (block, window.push (number, block.hash)) asked
      else (confirm window.pop (number - 1)).run settings
        { asked with journal := .withdrawn known.1 known.2 :: asked.journal } := by
  rw [confirm, Run.run_bind, hrun]
  simp only
  split
  next hnil => cases hblocks.symm.trans hnil
  next place hash _ hcons =>
    obtain ⟨rfl, rfl⟩ := List.cons_eq_cons.mp (hblocks.symm.trans hcons)
    by_cases hparent : hash = block.parentHash
    · simp [hparent]
    · simp [hparent, Run.note]

/-- Every run of `confirm` walks back, and enters into the journal what that says. -/
theorem confirm_walksBack {settings : Settings σ} (hnumbered : settings.client.Numbered)
    (window : Window) (number : Int) (state : RunState σ) :
    ∃ entries result after, WalksBack window number entries result ∧
      after.journal = entries.reverse ++ state.journal ∧
      (confirm window number).attempt.run settings state = .ok result after := by
  induction window, number using confirm.induct generalizing state with
  | case1 window number ih =>
    simp only [Run.run_attempt]
    rcases run_blockOf settings number state with
      hrun | ⟨request, failure, asked, hrun, hjournal⟩ | ⟨block, asked, hrun, hanswer, hjournal⟩
    · refine ⟨[], _, state, .closed, rfl, ?_⟩
      rw [run_confirm_of_failed hrun]
    · refine ⟨_, _, asked, .refused request failure, hjournal, ?_⟩
      rw [run_confirm_of_failed hrun]
    · obtain rfl := hnumbered number state.chain block hanswer
      cases hblocks : window.blocks with
      | nil =>
        rw [run_confirm_of_nil hrun hblocks]
        cases htruncated : window.truncated with
        | true => exact ⟨_, _, asked, .exhausted hblocks htruncated, hjournal, rfl⟩
        | false =>
          refine ⟨_, _, asked, .confirmed ?_, hjournal, rfl⟩
          simpa [Window.Admits, hblocks] using htruncated
      | cons known rest =>
        rw [run_confirm_of_cons hrun hblocks]
        by_cases hparent : known.2 = block.parentHash
        · rw [if_pos hparent]
          refine ⟨_, _, asked, .confirmed ?_, hjournal, rfl⟩
          simpa [Window.Admits, hblocks] using hparent
        · rw [if_neg hparent]
          obtain ⟨entries, result, after, hwalk, hentries, hafter⟩ :=
            ih known.1 known.2 rest hblocks
              { asked with journal := .withdrawn known.1 known.2 :: asked.journal }
          refine ⟨_, result, after, .withdrew hblocks hparent hwalk, ?_, hafter⟩
          rw [hentries, hjournal]
          simp

end BlockRange

end ChainExtract
