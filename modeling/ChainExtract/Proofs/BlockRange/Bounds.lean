import ChainExtract.Proofs.BlockRange.Omissions
import ChainExtract.Proofs.BlockRange.Withdrawal

/-! # The bounds of a range

A range asks for and delivers blocks within its bounds only, and leaves no number between
them without a delivery or a report. A walk back cannot lead below the first number, since
the window holds blocks of the range alone, directly below the number that comes next.
-/

namespace ChainExtract.BlockRange

open Journal

variable {σ : Type}

/-- The number lies in the range. -/
def InRange (first : Int) (last : Option Int) (number : Int) : Prop :=
  first ≤ number ∧ isBeyond last number = false

instance (first : Int) (last : Option Int) (number : Int) : Decidable (InRange first last number) :=
  inferInstanceAs (Decidable (_ ∧ _))

/-- A walk back asks for blocks from its number down to the one below the oldest
remembered block. -/
theorem WalksBack.requests_bounds {window : Window} {number : Int} {entries : List JournalEntry}
    {result : Except Error (Block × Window)} (hwalk : WalksBack window number entries result)
    {asked : Int} (hasked : asked ∈ requests entries) :
    number - window.blocks.length ≤ asked ∧ asked ≤ number := by
  induction hwalk with
  | closed => simp [requests] at hasked
  | refused | exhausted | confirmed =>
      simp only [requests, List.filterMap_cons, List.filterMap_nil, List.mem_singleton] at hasked
      omega
  | @withdrew window block known rest entries result hblocks _ _ ih =>
      have hlength : window.blocks.length = window.pop.blocks.length + 1 := by
        simp [Window.pop, hblocks]
      rcases List.mem_cons.mp (show asked ∈ block.number :: requests entries from hasked) with
        rfl | hbelow
      · omega
      · have := ih hbelow
        omega

theorem Fetches.requests_bounds {window : Window} {next : Int} {entries : List JournalEntry}
    {result : Except Error (Block × Window)} (hfetch : Fetches window next entries result)
    {asked : Int} (hasked : asked ∈ requests entries) :
    next - window.blocks.length ≤ asked ∧ asked ≤ next := by
  cases hfetch with
  | unpolled answers =>
      simp [requests] at hasked
  | polled answers hwalk =>
      rw [requests_polled] at hasked
      exact hwalk.requests_bounds hasked

theorem Fetches.delivered_bounds {window kept : Window} {next : Int} {entries : List JournalEntry}
    {block : Block} (hfetch : Fetches window next entries (.ok (block, kept)))
    (haligned : window.Aligned next) :
    next - window.blocks.length ≤ block.number ∧ block.number ≤ next := by
  obtain ⟨below, hsplit, hnumber, _⟩ := hfetch.of_ok haligned
  rw [hnumber, hsplit, List.length_append]
  omega

/-- Everything that was asked for or delivered lies in the range. -/
structure Bounded (first : Int) (last : Option Int) (entries : List JournalEntry) : Prop where
  requested : ∀ number ∈ requests entries, InRange first last number
  delivered : ∀ block ∈ deliveries entries, InRange first last block.number

theorem bounded_nil (first : Int) (last : Option Int) : Bounded first last [] :=
  ⟨by simp [requests], by simp [deliveries]⟩

theorem Bounded.append {first : Int} {last : Option Int} {past entries : List JournalEntry}
    (hpast : Bounded first last past) (hentries : Bounded first last entries) :
    Bounded first last (past ++ entries) where
  requested number hnumber := by
    rw [requests_append, List.mem_append] at hnumber
    exact hnumber.elim (hpast.requested number) (hentries.requested number)
  delivered block hblock := by
    rw [deliveries_append, List.mem_append] at hblock
    exact hblock.elim (hpast.delivered block) (hentries.delivered block)

/-- The entries of a turn are bounded if the window has not forgotten where the range begins. -/
theorem Turns.bounded {first : Int} {last : Option Int} {window : Window} {next : Int}
    {entries : List JournalEntry} {follow : Option (Window × Int)}
    (hturns : Turns window next entries follow) (haligned : window.Aligned next)
    (hfirst : first ≤ next - window.blocks.length) (hnext : isBeyond last next = false) :
    Bounded first last entries := by
  have hinside {number : Int} (hnumber : next - window.blocks.length ≤ number ∧ number ≤ next) :
      InRange first last number := ⟨by omega, isBeyond_mono hnumber.2 hnext⟩
  cases hturns with
  | @visited fetched block after hfetch =>
      refine ⟨fun number hnumber => hinside (hfetch.requests_bounds ?_), fun other hother => ?_⟩
      · simpa [requests] using hnumber
      · rw [deliveries_append, deliveries_eq_nil hfetch.retrieves] at hother
        obtain rfl : other = block := by simpa [deliveries] using hother
        exact hinside (hfetch.delivered_bounds haligned)
  | skipped hfetch | lost hfetch =>
      refine ⟨fun number hnumber => hinside (hfetch.requests_bounds ?_), fun block hblock => ?_⟩
      · simpa [requests] using hnumber
      · rw [deliveries_append, deliveries_eq_nil hfetch.retrieves] at hblock
        simp [deliveries] at hblock
  | waiting => exact bounded_nil first last

/-- The invariant of the turns: the window reaches down to the first number at most. -/
structure Confined (first : Int) (last : Option Int) (past : List JournalEntry) (window : Window)
    (next : Int) : Prop where
  aligned : window.Aligned next
  capacity_pos : 0 < window.capacity
  first_le : first ≤ next - window.blocks.length
  bounded : Bounded first last past

theorem Confined.start (first : Int) (last : Option Int) :
    Confined first last [] { capacity := Window.rangeCapacity } first where
  aligned := ⟨trivial, Nat.zero_le _⟩
  capacity_pos := by decide
  first_le := by simp
  bounded := bounded_nil first last

theorem Confined.turn {first : Int} {last : Option Int} {past entries : List JournalEntry}
    {window after : Window} {next number : Int} (hconfined : Confined first last past window next)
    (hnext : isBeyond last next = false)
    (hturns : Turns window next entries (some (after, number))) :
    Confined first last (past ++ entries) after number := by
  obtain ⟨haligned, hcapacity⟩ := hturns.aligned hconfined.capacity_pos hconfined.aligned
  have hlower := hturns.lower_end_le hconfined.aligned
  exact
    { aligned := haligned
      capacity_pos := hcapacity ▸ hconfined.capacity_pos
      first_le := Int.le_trans hconfined.first_le hlower
      bounded := hconfined.bounded.append
        (hturns.bounded hconfined.aligned hconfined.first_le hnext) }

theorem bounded_rangeEntries {settings : Settings σ} (hnumbered : settings.client.Numbered)
    (body : Run σ Unit) (first : Int) (last : Option Int) (state : RunState σ) :
    Bounded first last (rangeEntries body first last settings state) :=
  visitEntries_induction hnumbered (Confined first last) (Bounded first last)
    (fun _ _ _ hconfined => hconfined.bounded)
    (fun _ _ _ _ _ _ hnext hconfined hturns => hconfined.turn hnext hturns)
    (fun _ _ _ _ hnext hconfined hturns => hconfined.bounded.append
      (hturns.bounded hconfined.aligned hconfined.first_le hnext))
    (Confined.start first last)

theorem Unretrieved.skipped {entries : List JournalEntry} {number : Int}
    (hunretrieved : Unretrieved entries number) : Skipped entries number := by
  obtain ⟨before, requests, error, after, _, rfl⟩ := hunretrieved
  exact ⟨error, by simp⟩

/-- A range stays within its bounds whatever the chain answers, and when it has come to its end
each number between them was delivered or reported as not retrievable. -/
theorem keeps_to_range {settings : Settings σ} (hnumbered : settings.client.Numbered)
    (body : Run σ Unit) (first : Int) (last : Option Int) (state : RunState σ) :
    (∀ number ∈ requests (rangeEntries body first last settings state),
      InRange first last number) ∧
    (∀ block ∈ deliveries (rangeEntries body first last settings state),
      InRange first last block.number) ∧
    ∀ final, (visitAll body first last).run settings state = .ok () final →
      ∀ number, InRange first last number →
        (∃ block ∈ deliveries (rangeEntries body first last settings state),
          block.number = number) ∨
        Skipped (rangeEntries body first last settings state) number := by
  obtain ⟨hrequested, hdelivered⟩ := bounded_rangeEntries hnumbered body first last state
  refine ⟨hrequested, hdelivered, ?_⟩
  rintro final hrun number ⟨hfirst, hlast⟩
  have hstart : Covered first [] first := by
    intro place hplace hbelow
    omega
  obtain ⟨window, next, hbeyond, hcovered⟩ := visitFrom_ok_induction_of_run
    (fun past _ next => Covered first past next)
    (fun _ _ _ _ _ _ _ _ hcovered hturn => hcovered.turn hnumbered hturn) hstart hrun
  have hnext : number < next := by
    by_contra hle
    rw [isBeyond_mono (Int.not_lt.mp hle) hlast] at hbeyond
    cases hbeyond
  exact (hcovered number hfirst hnext).imp_right Unretrieved.skipped

/-- A chain that forks at its first block while block 3 is asked for, and refuses a later request
for block 3: the range walks back to its first number, and leaves out block 3 alone. -/
theorem keeps_to_range_forked :
    (forkingSettings 1 2 [6]).client.Numbered ∧
      requests (rangeEntries (pure ()) 1 (some 5) (forkingSettings 1 2 [6]) forkingStart) =
        [1, 2, 3, 2, 1, 2, 3, 4, 5] ∧
      (∀ number ∈ requests
        (rangeEntries (pure ()) 1 (some 5) (forkingSettings 1 2 [6]) forkingStart),
          InRange 1 (some 5) number) ∧
      (∃ final, (visitAll (pure ()) 1 (some 5)).run (forkingSettings 1 2 [6]) forkingStart =
        .ok () final) ∧
      (∀ block ∈ deliveries
        (rangeEntries (pure ()) 1 (some 5) (forkingSettings 1 2 [6]) forkingStart),
          block.number ≠ 3) ∧
      Skipped (rangeEntries (pure ()) 1 (some 5) (forkingSettings 1 2 [6]) forkingStart) 3 := by
  obtain ⟨_, final, hrun⟩ := Outcome.exists_of_isOk (show
    ((visitAll (pure ()) 1 (some 5)).run (forkingSettings 1 2 [6]) forkingStart).isOk = true by
      decide +kernel)
  have hnone : ∀ block ∈ deliveries
      (rangeEntries (pure ()) 1 (some 5) (forkingSettings 1 2 [6]) forkingStart),
        block.number ≠ 3 := by decide +kernel
  obtain ⟨hrequested, _, hcovered⟩ := keeps_to_range (forkingSettings_numbered 1 2 [6]) (pure ()) 1
    (some 5) forkingStart
  refine ⟨forkingSettings_numbered 1 2 [6], by decide +kernel, hrequested, ⟨final, hrun⟩, hnone, ?_⟩
  rcases hcovered final hrun 3 (by decide) with ⟨block, hmem, hnumber⟩ | hskipped
  · exact absurd hnumber (hnone block hmem)
  · exact hskipped

end ChainExtract.BlockRange
