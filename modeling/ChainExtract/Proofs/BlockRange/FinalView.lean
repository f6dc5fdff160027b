import ChainExtract.Proofs.BlockRange.Alignment

/-! # The final view of a range

Whatever the chain answers and however often it reorganizes, the blocks that
were delivered last under their numbers form a chain, except next to numbers
that were reported as not retrievable. The window knows only a part of this
chain; the invariant speaks about all of it, through the journal.
-/

namespace ChainExtract.BlockRange

open Journal

variable {σ : Type}

/-- The block of the number was reported as not retrievable. -/
def Skipped (entries : List JournalEntry) (number : Int) : Prop :=
  ∃ error, .reported (retrievalMessage number) error ∈ entries

/-- Blocks of the number and of the one below were delivered, and the last ones
are parent and child. -/
def Linked (entries : List JournalEntry) (number : Int) : Prop :=
  ∃ parent block, lastDelivered entries (number - 1) = some parent ∧
    lastDelivered entries number = some block ∧ block.parentHash = parent.hash

theorem Skipped.append {past : List JournalEntry} {number : Int} (hskipped : Skipped past number)
    (entries : List JournalEntry) : Skipped (past ++ entries) number := by
  obtain ⟨error, hmem⟩ := hskipped
  exact ⟨error, List.mem_append_left _ hmem⟩

theorem not_skipped_of_reports_eq_nil {entries : List JournalEntry} (hnone : reports entries = [])
    (number : Int) : ¬ Skipped entries number := by
  rintro ⟨error, hmem⟩
  have hreport := mem_reports.mpr hmem
  rw [hnone] at hreport
  cases hreport

/-- The invariant of the turns of a range. Below the window, up to the number
that comes next, everything is linked that was not skipped; the window remembers
what was delivered last; and what lies directly below a window that has forgotten
nothing is either out of the range or was skipped. -/
structure View (first : Int) (past : List JournalEntry) (window : Window) (next : Int) :
    Prop where
  aligned : window.Aligned next
  capacity_pos : 0 < window.capacity
  remembered : ∀ number hash, (number, hash) ∈ window.blocks →
    ∃ block, lastDelivered past number = some block ∧ block.hash = hash
  base : window.truncated = false → next - window.blocks.length = first ∨
    Skipped past (next - window.blocks.length - 1)
  linked : ∀ number, first < number → number < next → ¬ Skipped past (number - 1) →
    ¬ Skipped past number → Linked past number

theorem View.start (first : Int) :
    View first [] { capacity := Window.rangeCapacity } first where
  aligned := ⟨trivial, Nat.zero_le _⟩
  capacity_pos := by decide
  remembered := by simp
  base := by simp
  linked := by omega

theorem lastDelivered_append_fetch {past entries : List JournalEntry} {window : Window}
    {next : Int} {result : Except Error (Block × Window)}
    (hfetch : Fetches window next entries result) (number : Int) :
    lastDelivered (past ++ entries) number = lastDelivered past number :=
  lastDelivered_append_of_eq_nil (deliveries_eq_nil hfetch.retrieves) number

theorem View.parent {first : Int} {past entries : List JournalEntry} {window after : Window}
    {next : Int} {block : Block} (hview : View first past window next)
    (hfetch : Fetches window next entries (.ok (block, after))) (hfirst : first < block.number)
    (hskipped : ¬ Skipped past (block.number - 1)) :
    ∃ parent, lastDelivered past (block.number - 1) = some parent ∧
      block.parentHash = parent.hash := by
  obtain ⟨kept, hsplit, hnumber, hkept, hadmits, _⟩ := hfetch.of_ok hview.aligned
  cases kept with
  | nil =>
      -- nothing is remembered below the block, so it stands at the base of the window
      have hlength : window.blocks.length = (withdrawals entries).length := by simp [hsplit]
      rcases hview.base (by simpa [Window.Admits] using hadmits) with hbase | hbase
      · omega
      · rw [hlength, ← hnumber] at hbase
        exact absurd hbase hskipped
  | cons known rest =>
      -- the newest remembered block is the one delivered last under its number
      obtain ⟨number, hash⟩ := known
      have htop : number = block.number - 1 := hkept.countsDown.1
      subst htop
      obtain ⟨parent, hparent, rfl⟩ :=
        hview.remembered (block.number - 1) hash (by simp [hsplit])
      exact ⟨parent, hparent, (by simpa [Window.Admits] using hadmits : _ = _).symm⟩

theorem View.visited {first : Int} {past entries : List JournalEntry} {window after : Window}
    {next : Int} {block : Block} (hview : View first past window next)
    (hfetch : Fetches window next entries (.ok (block, after))) :
    View first (past ++ (entries ++ [.delivered block])) after (block.number + 1) := by
  have hother (number : Int) (hne : block.number ≠ number) :
      lastDelivered (past ++ (entries ++ [.delivered block])) number =
        lastDelivered past number := by
    rw [← List.append_assoc, lastDelivered_append_delivered_of_ne _ hne,
      lastDelivered_append_fetch hfetch]
  have hself : lastDelivered (past ++ (entries ++ [.delivered block])) block.number =
      some block := by
    rw [← List.append_assoc, lastDelivered_append_delivered]
  obtain ⟨kept, hsplit, hnumber, hkept, _, hafter⟩ := hfetch.of_ok hview.aligned
  have hbelow (number : Int) (hash : Word) (hmem : (number, hash) ∈ kept) :
      number < block.number := (hkept.countsDown.mem hmem).2
  refine ⟨?_, ?_, ?_, ?_, ?_⟩
  · rw [hafter]
    exact hkept.push hview.capacity_pos
  · rw [hafter, Window.push_capacity]
    exact hview.capacity_pos
  · intro number hash hmem
    rw [hafter] at hmem
    rcases Window.mem_push hmem with heq | hmem
    · cases heq
      exact ⟨block, hself, rfl⟩
    · rw [hother number (Int.ne_of_lt (hbelow number hash hmem)).symm]
      exact hview.remembered number hash (by simp [hsplit, show (number, hash) ∈ kept from hmem])
  · intro htruncated
    rw [hafter] at htruncated ⊢
    obtain ⟨hwhole, hgrown⟩ := Window.push_truncated_eq_false htruncated
    have hsame : block.number + 1 - ((block.number, block.hash) :: kept).length =
        next - window.blocks.length := by
      rw [hsplit, List.length_append, List.length_cons]
      omega
    rw [hgrown, hsame]
    exact (hview.base hwhole).imp_right (·.append _)
  · -- links below the block are old; the one at the block is what the window admitted
    intro number hfirst hnext hlower hupper
    have hlower' := fun hskipped => hlower (Skipped.append hskipped _)
    have hupper' := fun hskipped => hupper (Skipped.append hskipped _)
    rcases Int.lt_or_eq_of_le (Int.le_of_lt_add_one hnext) with hlt | rfl
    · obtain ⟨parent, child, hparent, hchild, hlink⟩ :=
        hview.linked number hfirst (by omega) hlower' hupper'
      refine ⟨parent, child, ?_, ?_, hlink⟩
      · rwa [hother _ (by omega)]
      · rwa [hother _ (by omega)]
    · obtain ⟨parent, hparent, hlink⟩ := hview.parent hfetch hfirst hlower'
      refine ⟨parent, block, ?_, hself, hlink⟩
      rwa [hother _ (by omega)]

theorem View.skipped {first : Int} {past entries : List JournalEntry} {window : Window}
    {next : Int} {error : Error} (hview : View first past window next)
    (hfetch : Fetches window next entries (.error error)) :
    View first (past ++ (entries ++ [.reported (retrievalMessage next) error])) window.reset
      (next + 1) := by
  have hskipped : Skipped (past ++ (entries ++ [.reported (retrievalMessage next) error])) next :=
    ⟨error, by simp⟩
  have hsame (number : Int) :
      lastDelivered (past ++ (entries ++ [.reported (retrievalMessage next) error])) number =
        lastDelivered past number := by
    rw [← List.append_assoc, lastDelivered_append_of_eq_nil (by simp [deliveries]),
      lastDelivered_append_fetch hfetch]
  refine ⟨⟨trivial, Nat.zero_le _⟩, hview.capacity_pos, by simp [Window.reset], ?_, ?_⟩
  · intro _
    right
    simpa [Window.reset] using hskipped
  · intro number hfirst hnext hlower hupper
    rcases Int.lt_or_eq_of_le (Int.le_of_lt_add_one hnext) with hlt | rfl
    · obtain ⟨parent, child, hparent, hchild, hlink⟩ :=
        hview.linked number hfirst hlt (fun h => hlower (h.append _)) (fun h => hupper (h.append _))
      exact ⟨parent, child, by rwa [hsame], by rwa [hsame], hlink⟩
    · exact absurd hskipped hupper

theorem View.turn {first : Int} {past entries : List JournalEntry} {window after : Window}
    {next number : Int} (hview : View first past window next)
    (hturns : Turns window next entries (some (after, number))) :
    View first (past ++ entries) after number := by
  cases hturns with
  | visited hfetch => exact hview.visited hfetch
  | skipped hfetch => exact hview.skipped hfetch

/-- Once a range has been visited, the blocks delivered last form a chain: adjacent
numbers that were not reported as not retrievable were both delivered, and the
last block of the one is the parent of the last block of the other. Nothing is
assumed about the chain but that its blocks have the numbers they are asked for
by, and nothing about the body. -/
theorem linked_of_visitAll_ok {settings : Settings σ} (hnumbered : settings.client.Numbered)
    {body : Run σ Unit} {first last : Int} {state final : RunState σ}
    (hrun : (visitAll body first (some last)).run settings state = .ok () final)
    {number : Int} (hfirst : first < number) (hlast : number ≤ last)
    (hlower : ¬ Skipped (rangeEntries body first (some last) settings state) (number - 1))
    (hupper : ¬ Skipped (rangeEntries body first (some last) settings state) number) :
    Linked (rangeEntries body first (some last) settings state) number := by
  obtain ⟨window, next, hbeyond, hview⟩ := visitFrom_ok_induction hnumbered (View first)
    (fun _ _ _ _ _ _ _ hview hturns => hview.turn hturns) (View.start first) hrun
  have hnext : last < next := by simpa [isBeyond] using hbeyond
  exact hview.linked number hfirst (by omega) hlower hupper

/-- Block 2 is replaced while block 3 is asked for, and delivered twice. -/
theorem linked_of_visitAll_ok_forked :
    (forkingSettings 2 2 []).client.Numbered ∧
      deliveries (rangeEntries (pure ()) 1 (some 3) (forkingSettings 2 2 []) forkingStart) =
        [branchBlock 2 false 1, branchBlock 2 false 2, branchBlock 2 true 2,
          branchBlock 2 true 3] ∧
      Linked (rangeEntries (pure ()) 1 (some 3) (forkingSettings 2 2 []) forkingStart) 3 := by
  have hreports : reports
      (rangeEntries (pure ()) 1 (some 3) (forkingSettings 2 2 []) forkingStart) = [] := by
    decide +kernel
  obtain ⟨_, final, hrun⟩ := Outcome.exists_of_isOk (show
    ((visitAll (pure ()) 1 (some 3)).run (forkingSettings 2 2 []) forkingStart).isOk = true by
      decide +kernel)
  refine ⟨forkingSettings_numbered 2 2 [], by decide +kernel, ?_⟩
  exact linked_of_visitAll_ok (forkingSettings_numbered 2 2 []) hrun (by decide) (by decide)
    (not_skipped_of_reports_eq_nil hreports _) (not_skipped_of_reports_eq_nil hreports _)

end ChainExtract.BlockRange
