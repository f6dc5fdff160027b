import ChainExtract.Proofs.BlockRange.Entries

/-! # Alignment of the window

At every turn the remembered blocks are the ones directly below the number that
comes next, and there are never more of them than the window may hold. A turn
moves on by one number or goes back by as many as it gives up blocks.
-/

namespace ChainExtract

variable {σ : Type}

namespace Window

theorem CountsDown.dropLast {blocks : List KnownBlock} {next : Int}
    (hcounts : CountsDown next blocks) : CountsDown next blocks.dropLast := by
  induction blocks generalizing next with
  | nil => trivial
  | cons known rest ih =>
      cases rest with
      | nil => trivial
      | cons second rest => exact ⟨hcounts.1, ih hcounts.2⟩

/-- The window agrees with the number that comes next. -/
structure Aligned (window : Window) (next : Int) : Prop where
  countsDown : CountsDown next window.blocks
  length_le : window.blocks.length ≤ window.capacity

theorem Aligned.push {window : Window} {number : Int} {hash : Word}
    (haligned : window.Aligned number) (hcapacity : 0 < window.capacity) :
    (window.push (number, hash)).Aligned (number + 1) := by
  unfold Window.push
  split
  next hfull =>
    refine ⟨⟨by simp, ?_⟩, ?_⟩
    · simpa using haligned.countsDown.dropLast
    · simp only [List.length_cons, List.length_dropLast]
      omega
  next hroom =>
    refine ⟨⟨by simp, by simpa using haligned.countsDown⟩, ?_⟩
    have := haligned.length_le
    simp only [List.length_cons]
    omega

@[simp] theorem push_capacity (window : Window) (known : KnownBlock) :
    (window.push known).capacity = window.capacity := by
  unfold Window.push
  split <;> rfl

theorem length_push_le (window : Window) (known : KnownBlock) :
    (window.push known).blocks.length ≤ window.blocks.length + 1 := by
  unfold Window.push
  split
  · simp only [List.length_cons, List.length_dropLast]
    omega
  · simp

theorem mem_push {window : Window} {known other : KnownBlock}
    (hmem : other ∈ (window.push known).blocks) : other = known ∨ other ∈ window.blocks := by
  unfold Window.push at hmem
  split at hmem
  · exact (List.mem_cons.mp hmem).imp_right fun h => List.dropLast_subset _ h
  · exact List.mem_cons.mp hmem

/-- A window that has forgotten nothing after a block was remembered had forgotten
nothing before, and has grown by that block. -/
theorem push_truncated_eq_false {window : Window} {known : KnownBlock}
    (htruncated : (window.push known).truncated = false) :
    window.truncated = false ∧ (window.push known).blocks = known :: window.blocks := by
  unfold Window.push at htruncated ⊢
  split at htruncated
  next => cases htruncated
  next hroom => exact ⟨htruncated, by simp [hroom]⟩

end Window

namespace BlockRange

/-- What a turn that visits a block does to an aligned window: it gives up the
newest blocks, and the block visited takes the place of the oldest of them. -/
theorem Fetches.of_ok {window after : Window} {next : Int} {entries : List JournalEntry}
    {block : Block} (hfetch : Fetches window next entries (.ok (block, after)))
    (haligned : window.Aligned next) :
    ∃ kept, window.blocks = Journal.withdrawals entries ++ kept ∧
      block.number = next - (Journal.withdrawals entries).length ∧
      Window.Aligned { window with blocks := kept } block.number ∧
      Window.Admits { window with blocks := kept } block.parentHash ∧
      after = Window.push { window with blocks := kept } (block.number, block.hash) := by
  cases hfetch with
  | polled answers hwalk =>
      obtain ⟨kept, hsplit, hnumber, hadmits, hafter⟩ := hwalk.of_ok
      rw [withdrawals_polled]
      refine ⟨kept, hsplit, hnumber, ⟨?_, ?_⟩, hadmits, hafter⟩
      · have hcounts := haligned.countsDown
        rw [hsplit] at hcounts
        rw [hnumber]
        exact hcounts.append.2
      · have hlength := haligned.length_le
        rw [hsplit, List.length_append] at hlength
        exact Nat.le_trans (Nat.le_add_left _ _) hlength

theorem Turns.aligned {window after : Window} {next number : Int} {entries : List JournalEntry}
    (hturns : Turns window next entries (some (after, number))) (hcapacity : 0 < window.capacity)
    (haligned : window.Aligned next) :
    after.Aligned number ∧ after.capacity = window.capacity := by
  cases hturns with
  | visited hfetch =>
      obtain ⟨kept, _, _, hkept, _, rfl⟩ := hfetch.of_ok haligned
      exact ⟨hkept.push hcapacity, by simp⟩
  | skipped => exact ⟨⟨trivial, Nat.zero_le _⟩, rfl⟩

/-- Every turn at which a range can arrive finds its window aligned. -/
theorem Reaches.aligned {body : Run σ Unit} {first : Int} {last : Option Int}
    {settings : Settings σ} (hnumbered : settings.client.Numbered) {start state : RunState σ}
    {window : Window} {next : Int}
    (hreaches : Reaches body first last settings start window next state) :
    window.Aligned next ∧ window.capacity = Window.rangeCapacity := by
  induction hreaches with
  | start => exact ⟨⟨trivial, Nat.zero_le _⟩, rfl⟩
  | turn _ _ hturn ih =>
      obtain ⟨haligned, hcapacity⟩ := ih
      obtain ⟨follow, hturns, hfollow⟩ := turns_turnEntries hnumbered body _ _ _
      rw [hfollow _ _ _ hturn] at hturns
      obtain ⟨hafter, hsame⟩ := hturns.aligned (by rw [hcapacity]; decide) haligned
      exact ⟨hafter, hsame.trans hcapacity⟩

theorem Turns.lower_end_le {window after : Window} {next number : Int}
    {entries : List JournalEntry} (hturns : Turns window next entries (some (after, number)))
    (haligned : window.Aligned next) :
    next - window.blocks.length ≤ number - after.blocks.length := by
  cases hturns with
  | @visited _ block _ hfetch =>
      obtain ⟨kept, hsplit, hnumber, _, _, rfl⟩ := hfetch.of_ok haligned
      have hgrown := Window.length_push_le { window with blocks := kept } (block.number, block.hash)
      rw [hsplit, List.length_append]
      simp only at hgrown
      omega
  | skipped =>
      simp only [Window.reset, List.length_nil]
      omega

theorem Reaches.first_le {body : Run σ Unit} {first : Int} {last : Option Int}
    {settings : Settings σ} (hnumbered : settings.client.Numbered) {start state : RunState σ}
    {window : Window} {next : Int}
    (hreaches : Reaches body first last settings start window next state) :
    first ≤ next - window.blocks.length := by
  induction hreaches with
  | start => simp
  | turn hreaches _ hturn ih =>
      obtain ⟨haligned, _⟩ := hreaches.aligned hnumbered
      obtain ⟨follow, hturns, hfollow⟩ := turns_turnEntries hnumbered body _ _ _
      rw [hfollow _ _ _ hturn] at hturns
      exact Int.le_trans ih (hturns.lower_end_le haligned)

end BlockRange

end ChainExtract
