import ChainExtract.Proofs.BlockRange.Alignment
import ChainExtract.Proofs.Maintains
import Mathlib.Data.List.Induction

/-! # Eviction from the window

A window is what is left of a stack without a bound when the oldest blocks are forgotten: it
holds the newest blocks of the stack, and all of them unless it counts as truncated. Since
walking back gives up a block at every step, the size of the window bounds how many blocks are
asked for to confirm one.
-/

namespace ChainExtract

variable {σ : Type}

namespace Window

/-- What can be done to a window. -/
inductive Operation where
  | push (block : KnownBlock)
  | pop
  | reset
deriving DecidableEq

def apply (window : Window) : Operation → Window
  | .push block => window.push block
  | .pop => window.pop
  | .reset => window.reset

/-- The window after some operations, the first of them in front. -/
def applyAll (window : Window) (operations : List Operation) : Window :=
  operations.foldl apply window

theorem size_push_le {window : Window} (hcapacity : 0 < window.capacity)
    (hsize : window.size ≤ window.capacity) (block : KnownBlock) :
    (window.push block).size ≤ window.capacity := by
  unfold Window.push
  split
  · simp only [size, List.length_cons, List.length_dropLast] at hsize ⊢
    omega
  next hroom =>
    simp only [size, List.length_cons] at hsize ⊢
    omega

theorem truncated_push {window : Window} {block : KnownBlock} :
    (window.push block).truncated = true ↔
      window.truncated = true ∨ window.size = window.capacity := by
  unfold Window.push size
  split <;> simp_all

end Window

open Window (Operation)

/-- A window, and a stack without a bound beside it, the newest block first. -/
structure Tracked where
  window : Window
  stack : List KnownBlock := []

namespace Tracked

/-- An operation on the window and on the stack. From an empty window no block can be given up. -/
def step (tracked : Tracked) (operation : Operation) : Tracked where
  window := tracked.window.apply operation
  stack :=
    match operation with
    | .push block => block :: tracked.stack
    | .pop => if tracked.window.blocks = [] then tracked.stack else tracked.stack.tail
    | .reset => []

/-- Where some operations lead from an empty window and an empty stack. -/
def after (capacity : Nat) (operations : List Operation) : Tracked :=
  operations.foldl step { window := { capacity } }

/-- The window holds the newest blocks of the stack, and no more than it may; it holds all blocks
of the stack if none had to be forgotten. -/
structure Agrees (capacity : Nat) (tracked : Tracked) : Prop where
  capacity_eq : tracked.window.capacity = capacity
  size_le : tracked.window.size ≤ capacity
  newest : tracked.window.blocks <+: tracked.stack
  eq_of_untruncated : tracked.window.truncated = false → tracked.window.blocks = tracked.stack

/-- Since the window was last reset, a block has been pushed onto it when it was full. -/
def Overflowed (capacity : Nat) (operations : List Operation) : Prop :=
  ∃ before block later, operations = before ++ .push block :: later ∧ .reset ∉ later ∧
    (after capacity before).window.size = capacity

variable {capacity : Nat} {operations : List Operation}

theorem after_concat (capacity : Nat) (operations : List Operation) (operation : Operation) :
    after capacity (operations ++ [operation]) = (after capacity operations).step operation := by
  rw [after, List.foldl_concat, ← after]

theorem window_after (capacity : Nat) (operations : List Operation) :
    (after capacity operations).window = ({ capacity } : Window).applyAll operations := by
  induction operations using List.reverseRecOn with
  | nil => rfl
  | append_singleton operations operation ih =>
      rw [after_concat, Window.applyAll, List.foldl_concat, ← Window.applyAll, ← ih]
      rfl

theorem Agrees.push {tracked : Tracked} (hagrees : tracked.Agrees capacity)
    (hcapacity : 0 < capacity) (block : KnownBlock) :
    (tracked.step (.push block)).Agrees capacity := by
  obtain ⟨rfl, hsize, hnewest, hall⟩ := hagrees
  refine ⟨Window.push_capacity _ block, Window.size_push_le hcapacity hsize block, ?_, ?_⟩
  · show (tracked.window.push block).blocks <+: block :: tracked.stack
    unfold Window.push
    split
    · exact List.cons_prefix_cons.mpr ⟨rfl, (List.dropLast_prefix _).trans hnewest⟩
    · exact List.cons_prefix_cons.mpr ⟨rfl, hnewest⟩
  · intro htruncated
    obtain ⟨huntruncated, hgrown⟩ := Window.push_truncated_eq_false htruncated
    exact hgrown.trans (congrArg (block :: ·) (hall huntruncated))

theorem Agrees.pop {tracked : Tracked} (hagrees : tracked.Agrees capacity) :
    (tracked.step .pop).Agrees capacity := by
  obtain ⟨hcapacity, hsize, hnewest, hall⟩ := hagrees
  have hshrunk : tracked.window.pop.size ≤ capacity := by
    simp only [Window.pop, Window.size, List.length_tail] at hsize ⊢
    omega
  refine ⟨hcapacity, hshrunk, ?_, fun huntruncated => ?_⟩
  · obtain ⟨older, hstack⟩ := hnewest
    -- an empty window gives up nothing, although the stack may still hold blocks
    cases hblocks : tracked.window.blocks with
    | nil => simp [step, Window.apply, Window.pop, hblocks]
    | cons known rest => simp [step, Window.apply, Window.pop, hblocks, ← hstack]
  · have hsame := hall huntruncated
    cases hblocks : tracked.window.blocks with
    | nil => simp [step, Window.apply, Window.pop, hblocks, ← hsame]
    | cons known rest => simp [step, Window.apply, Window.pop, hblocks, ← hsame]

theorem Agrees.step {tracked : Tracked} (hagrees : tracked.Agrees capacity)
    (hcapacity : 0 < capacity) (operation : Operation) :
    (tracked.step operation).Agrees capacity := by
  cases operation with
  | push block => exact hagrees.push hcapacity block
  | pop => exact hagrees.pop
  | reset => exact ⟨hagrees.capacity_eq, Nat.zero_le _, List.prefix_rfl, fun _ => rfl⟩

theorem agrees_after (hcapacity : 0 < capacity) (operations : List Operation) :
    (after capacity operations).Agrees capacity := by
  induction operations using List.reverseRecOn with
  | nil => exact ⟨rfl, Nat.zero_le _, List.prefix_rfl, fun _ => rfl⟩
  | append_singleton operations operation ih =>
      rw [after_concat]
      exact ih.step hcapacity operation

/-- What the last operation says about whether the window has overflowed. -/
theorem overflowed_concat {operation : Operation} :
    Overflowed capacity (operations ++ [operation]) ↔
      operation ≠ .reset ∧
        (Overflowed capacity operations ∨
          (∃ block, operation = .push block) ∧
            (after capacity operations).window.size = capacity) := by
  constructor
  · rintro ⟨before, block, later, hsplit, hreset, hfull⟩
    rcases List.eq_nil_or_concat later with rfl | ⟨later, last, rfl⟩
    · obtain ⟨rfl, hlast⟩ := List.append_inj' hsplit rfl
      obtain rfl := List.singleton_inj.mp hlast
      exact ⟨by simp, Or.inr ⟨⟨block, rfl⟩, hfull⟩⟩
    · rw [List.concat_eq_append, ← List.cons_append, ← List.append_assoc] at hsplit
      obtain ⟨hbefore, hlast⟩ := List.append_inj' hsplit rfl
      obtain rfl := List.singleton_inj.mp hlast
      simp only [List.concat_eq_append, List.mem_append, List.mem_singleton, not_or] at hreset
      exact ⟨Ne.symm hreset.2, Or.inl ⟨before, block, later, hbefore, hreset.1, hfull⟩⟩
  · rintro ⟨hreset, ⟨before, block, later, rfl, hlater, hfull⟩ | ⟨⟨block, rfl⟩, hfull⟩⟩
    · refine ⟨before, block, later ++ [operation], by simp, ?_, hfull⟩
      simpa using ⟨hlater, Ne.symm hreset⟩
    · exact ⟨operations, block, [], rfl, List.not_mem_nil, hfull⟩

/-- A window counts as truncated if and only if it has overflowed since it was last reset. -/
theorem truncated_after_iff (hcapacity : 0 < capacity) (operations : List Operation) :
    (after capacity operations).window.truncated = true ↔ Overflowed capacity operations := by
  induction operations using List.reverseRecOn with
  | nil => simp [after, Overflowed]
  | append_singleton operations operation ih =>
      have hsame := (agrees_after hcapacity operations).capacity_eq
      rw [after_concat, overflowed_concat, ← ih]
      cases operation with
      | push block =>
          show (Window.push _ block).truncated = true ↔ _
          rw [Window.truncated_push, hsame]
          simp
      | pop => simp [step, Window.apply, Window.pop]
      | reset => simp [step, Window.apply, Window.reset]

end Tracked

namespace BlockRange

/-! ### Confirming within a bound -/

/-- So many numbers, from the given one down. -/
def descending : (count : Nat) → (number : Int) → List Int
  | 0, _ => []
  | count + 1, number => number :: descending count (number - 1)

/-- Confirming a block ends, and asks for no more blocks than the bound says: for the one that is
wanted, and one by one for those directly below it. -/
def ConfirmsWithin (settings : Settings σ) (window : Window) (number : Int) (state : RunState σ)
    (bound : Nat) : Prop :=
  ∃ count ≤ bound, ∃ result after,
    (confirm window number).attempt.run settings state = .ok result after ∧
      Journal.requests (after.since state) = descending count number

variable {settings : Settings σ}

theorem ConfirmsWithin.mono {window : Window} {number : Int} {state : RunState σ}
    {bound larger : Nat} (hwithin : ConfirmsWithin settings window number state bound)
    (hle : bound ≤ larger) : ConfirmsWithin settings window number state larger := by
  obtain ⟨count, hcount, hrun⟩ := hwithin
  exact ⟨count, hcount.trans hle, hrun⟩

/-- A walk back asks for a block, if the connection is open, and ends; or it gives up the newest
remembered block and goes on with the block below. -/
theorem run_confirm_step (settings : Settings σ) (window : Window) (number : Int)
    (state : RunState σ) :
    (∃ error asked, (confirm window number).run settings state = .failed error asked ∧
        (asked.journal = state.journal ∨
          ∃ answer, asked.journal = .block number answer :: state.journal)) ∨
      (∃ block asked, (confirm window number).run settings state =
          .ok (block, window.push (number, block.hash)) asked ∧
        asked.journal = .block number (.ok block) :: state.journal) ∨
      ∃ known rest block asked, window.blocks = known :: rest ∧
        (confirm window number).run settings state =
          (confirm window.pop (number - 1)).run settings asked ∧
        asked.journal = .withdrawn known.1 known.2 :: .block number (.ok block) ::
          state.journal := by
  rcases run_blockOf settings number state with
    hrun | ⟨request, failure, asked, hrun, hjournal⟩ | ⟨block, asked, hrun, _, hjournal⟩
  · exact Or.inl ⟨_, state, run_confirm_of_failed hrun, Or.inl rfl⟩
  · exact Or.inl ⟨_, asked, run_confirm_of_failed hrun, Or.inr ⟨_, hjournal⟩⟩
  cases hblocks : window.blocks with
  | nil =>
      rw [run_confirm_of_nil hrun hblocks]
      cases window.truncated with
      | true => exact Or.inl ⟨_, asked, rfl, Or.inr ⟨_, hjournal⟩⟩
      | false => exact Or.inr (Or.inl ⟨block, asked, rfl, hjournal⟩)
  | cons known rest =>
      rw [run_confirm_of_cons hrun hblocks]
      by_cases hparent : known.2 = block.parentHash
      · rw [if_pos hparent]
        exact Or.inr (Or.inl ⟨block, asked, rfl, hjournal⟩)
      · rw [if_neg hparent]
        exact Or.inr (Or.inr ⟨known, rest, block, _, rfl, rfl, by rw [hjournal]⟩)

/-- Each block that is asked for after the first has cost the window a block. -/
theorem run_confirm_requests (settings : Settings σ) (window : Window) (number : Int)
    (state : RunState σ) :
    ∃ count ≤ window.size + 1, ∃ entries result after,
      (confirm window number).attempt.run settings state = .ok result after ∧
        after.journal = entries.reverse ++ state.journal ∧
        Journal.requests entries = descending count number := by
  induction window, number using confirm.induct generalizing state with
  | case1 window number ih =>
    simp only [Run.run_attempt]
    rcases run_confirm_step settings window number state with
      ⟨error, asked, hrun, hjournal | ⟨answer, hjournal⟩⟩ | ⟨block, asked, hrun, hjournal⟩ |
        ⟨known, rest, block, asked, hblocks, hrun, hjournal⟩
    · exact ⟨0, Nat.zero_le _, [], .error error, asked, by rw [hrun], hjournal, rfl⟩
    · exact ⟨1, Nat.le_add_left _ _, [_], .error error, asked, by rw [hrun], hjournal, rfl⟩
    · exact ⟨1, Nat.le_add_left _ _, [_], .ok _, asked, by rw [hrun], hjournal, rfl⟩
    · obtain ⟨count, hcount, entries, result, after, hafter, hentries, hrequests⟩ :=
        ih known.1 known.2 rest hblocks asked
      refine ⟨count + 1, ?_, .block number (.ok block) :: .withdrawn known.1 known.2 :: entries,
        result, after, ?_, ?_, ?_⟩
      · simp only [Window.size, Window.pop, hblocks, List.tail_cons, List.length_cons] at hcount ⊢
        omega
      · rw [hrun]
        exact hafter
      · rw [hentries, hjournal]
        simp
      · rw [descending, ← hrequests]
        rfl

theorem confirmsWithin_size (settings : Settings σ) (window : Window) (number : Int)
    (state : RunState σ) : ConfirmsWithin settings window number state (window.size + 1) := by
  obtain ⟨count, hcount, entries, result, after, hrun, hjournal, hrequests⟩ :=
    run_confirm_requests settings window number state
  refine ⟨count, hcount, result, after, hrun, ?_⟩
  rw [RunState.since_eq hjournal, hrequests]

/-! ### The windows of a range -/

theorem operations_of_confirm {window after : Window} {number : Int} {block : Block}
    {state final : RunState σ}
    (hrun : (confirm window number).run settings state = .ok (block, after) final) :
    ∃ operations, after = window.applyAll operations := by
  induction window, number using confirm.induct generalizing state with
  | case1 window number ih =>
    rcases run_confirm_step settings window number state with
      ⟨_, _, hfailed, _⟩ | ⟨found, _, hfound, _⟩ | ⟨known, rest, _, _, hblocks, hdescends, _⟩
    · cases hfailed.symm.trans hrun
    · cases hfound.symm.trans hrun
      exact ⟨[.push (number, block.hash)], rfl⟩
    · obtain ⟨operations, rfl⟩ := ih known.1 known.2 rest hblocks (hdescends.symm.trans hrun)
      exact ⟨.pop :: operations, rfl⟩

theorem operations_of_fetch {window after : Window} {next : Int} {block : Block}
    {state final : RunState σ}
    (hrun : (fetch window next).run settings state = .ok (.ok (block, after)) final) :
    ∃ operations, after = window.applyAll operations := by
  obtain ⟨_, _, _, hwait⟩ := Run.of_bind_ok (Run.of_attempt_ok hrun)
  obtain ⟨_, _, _, hconfirm⟩ := Run.of_bind_ok hwait
  exact operations_of_confirm hconfirm

theorem operations_of_turn {body : Run σ Unit} {window after : Window} {next number : Int}
    {state final : RunState σ}
    (hrun : (turn body window next).run settings state = .ok (after, number) final) :
    ∃ operations, after = window.applyAll operations := by
  obtain ⟨outcome, fetched, hfetch, hrest⟩ := Run.of_bind_ok hrun
  rcases outcome with error | ⟨block, kept⟩
  · cases error with
    | discontinuity => cases hrest
    | _ =>
        -- after any other failure the window is reset
        obtain ⟨_, _, _, hreturn⟩ := Run.of_bind_ok hrest
        cases hreturn
        exact ⟨[.reset], rfl⟩
  · obtain ⟨_, _, _, hreturn⟩ := Run.of_bind_ok hrest
    cases hreturn
    exact operations_of_fetch hfetch

theorem Reaches.operations {body : Run σ Unit} {first : Int} {last : Option Int}
    {start state : RunState σ} {window : Window} {next : Int}
    (hreaches : Reaches body first last settings start window next state) :
    ∃ operations, window = (Tracked.after Window.rangeCapacity operations).window := by
  induction hreaches with
  | start => exact ⟨[], rfl⟩
  | turn _ _ hturn ih =>
      obtain ⟨earlier, rfl⟩ := ih
      obtain ⟨operations, rfl⟩ := operations_of_turn hturn
      refine ⟨earlier ++ operations, ?_⟩
      rw [Tracked.window_after, Tracked.window_after, Window.applyAll, Window.applyAll,
        Window.applyAll, List.foldl_append]

/-- A window of which only the operations are known confirms within its capacity and one. -/
theorem confirmsWithin_capacity {capacity : Nat} (hcapacity : 0 < capacity)
    (settings : Settings σ) (operations : List Operation) (number : Int) (state : RunState σ) :
    ConfirmsWithin settings (Tracked.after capacity operations).window number state
      (capacity + 1) := by
  apply (confirmsWithin_size settings _ number state).mono
  exact Nat.succ_le_succ (Tracked.agrees_after hcapacity operations).size_le

/-- Under the same operations a window holds the newest blocks of the stack that forgets none, and
all of them unless it has overflowed since the last reset. Hence a block is confirmed with at most
one request more than the window holds blocks, in a range with at most 31. -/
theorem bounded_walkBack :
    (∀ capacity ≥ 1, ∀ operations,
      (Tracked.after capacity operations).Agrees capacity ∧
        ((Tracked.after capacity operations).window.truncated = true ↔
          Tracked.Overflowed capacity operations)) ∧
      ∀ {σ : Type} (settings : Settings σ),
        (∀ window number state, ConfirmsWithin settings window number state (window.size + 1)) ∧
          ∀ body first last start window next state,
            Reaches body first last settings start window next state →
              (∃ operations, window = (Tracked.after Window.rangeCapacity operations).window) ∧
                ∀ number later, ConfirmsWithin settings window number later 31 := by
  refine ⟨fun capacity hcapacity operations => ?_, fun settings => ⟨?_, ?_⟩⟩
  · have hagrees := Tracked.agrees_after hcapacity operations
    exact ⟨hagrees, Tracked.truncated_after_iff hcapacity operations⟩
  · exact confirmsWithin_size settings
  · intro body first last start window next state hreaches
    obtain ⟨operations, rfl⟩ := hreaches.operations
    exact ⟨⟨operations, rfl⟩, confirmsWithin_capacity (by decide) settings operations⟩

/-- A window of two that has been emptied while the stack still holds a block, and a range whose
window holds two blocks when the chain is about to fork. -/
theorem bounded_walkBack_emptied :
    1 ≤ 2 ∧
      (∃ operations, (Tracked.after 2 operations).window.blocks = [] ∧
        (Tracked.after 2 operations).stack = [(1, branchHash false 1)] ∧
        Tracked.Overflowed 2 operations) ∧
      ∃ window state,
        Reaches (pure ()) 1 (some 3) (forkingSettings 2 2 []) forkingStart window 3 state ∧
          window.size = 2 ∧ ConfirmsWithin (forkingSettings 2 2 []) window 3 state 31 := by
  have hcapacity : 1 ≤ 2 := by decide
  have htruncated := (bounded_walkBack.1 2 hcapacity
    [.push (1, branchHash false 1), .push (2, branchHash false 2), .push (3, branchHash false 3),
      .pop, .pop]).2
  have hturns : ((afterTurns (pure ()) (some 3) (forkingSettings 2 2 []) 2
      { capacity := Window.rangeCapacity } 1 forkingStart).map
        fun place => (place.1.size, place.2.1)) = some (2, 3) := by
    decide +kernel
  obtain ⟨⟨window, next, state⟩, hafter, hplace⟩ := Option.map_eq_some_iff.mp hturns
  obtain ⟨hsize, rfl⟩ := Prod.mk.inj hplace
  have hreaches := Reaches.start.of_afterTurns hafter
  obtain ⟨_, hwithin⟩ := (bounded_walkBack.2 _).2 _ _ _ _ _ _ _ hreaches
  exact ⟨hcapacity, ⟨_, rfl, rfl, htruncated.mp rfl⟩, window, state, hreaches, hsize,
    hwithin 3 state⟩

end BlockRange

end ChainExtract
