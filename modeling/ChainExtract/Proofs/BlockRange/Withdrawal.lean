import ChainExtract.Proofs.BlockRange.FinalView

/-! # Blocks that are given up

A block that was given up because the chain was reorganized is delivered anew
before the range goes beyond it. The one exception is a retrieval that fails on
the way, be it the one whose walk back gave the block up or a later one of its
number: it is reported, and continuity restarts with the next block that can be
fetched.
-/

namespace ChainExtract.BlockRange

open Journal

variable {σ : Type}

/-- The range has come to the number again: a block of it has been delivered, or its
retrieval has been reported as failed. -/
def Revisited (entries : List JournalEntry) (number : Int) : Prop :=
  (∃ block, .delivered block ∈ entries ∧ block.number = number) ∨ Skipped entries number

/-- The walk back that is under way is broken off: the retrieval that it belongs to, of a
place above the number, is reported as failed. -/
def BreaksOff (entries : List JournalEntry) (number : Int) : Prop :=
  ∃ walk place error later, entries = walk ++ .reported (retrievalMessage place) error :: later ∧
    (∀ entry ∈ walk, Retrieves entry) ∧ number < place

/-- The range has dealt with a block given up under a number: it has come to the number
again, or the walk back that gave the block up was broken off. -/
def Resolved (entries : List JournalEntry) (number : Int) : Prop :=
  Revisited entries number ∨ BreaksOff entries number

/-- A block of the number was given up, and the range has not dealt with it since. -/
def Unresolved (entries : List JournalEntry) (number : Int) : Prop :=
  ∃ before hash after, entries = before ++ .withdrawn number hash :: after ∧
    ¬ Resolved after number

/-- No block is delivered beyond one that was given up and not dealt with. -/
def Careful (entries : List JournalEntry) : Prop :=
  ∀ before block after, entries = before ++ .delivered block :: after →
    ∀ number, Unresolved before number → block.number ≤ number

theorem Revisited.append_left {entries : List JournalEntry} {number : Int}
    (hrevisited : Revisited entries number) (more : List JournalEntry) :
    Revisited (entries ++ more) number := by
  rcases hrevisited with ⟨block, hmem, hnumber⟩ | hskipped
  · exact Or.inl ⟨block, List.mem_append_left _ hmem, hnumber⟩
  · exact Or.inr (hskipped.append more)

theorem Revisited.append_right {entries : List JournalEntry} {number : Int}
    (hrevisited : Revisited entries number) (past : List JournalEntry) :
    Revisited (past ++ entries) number := by
  rcases hrevisited with ⟨block, hmem, hnumber⟩ | ⟨error, hmem⟩
  · exact Or.inl ⟨block, List.mem_append_right _ hmem, hnumber⟩
  · exact Or.inr ⟨error, List.mem_append_right _ hmem⟩

theorem Resolved.append_left {entries : List JournalEntry} {number : Int}
    (hresolved : Resolved entries number) (more : List JournalEntry) :
    Resolved (entries ++ more) number := by
  rcases hresolved with hrevisited | ⟨walk, place, error, later, rfl, hwalk, hplace⟩
  · exact Or.inl (hrevisited.append_left more)
  · exact Or.inr ⟨walk, place, error, later ++ more, by simp, hwalk, hplace⟩

theorem Unresolved.of_append {past entries : List JournalEntry} {number : Int}
    (hunresolved : Unresolved (past ++ entries) number) :
    (Unresolved past number ∧ ¬ Revisited entries number) ∨ Unresolved entries number := by
  obtain ⟨before, hash, after, hsplit, hopen⟩ := hunresolved
  rcases split_append hsplit with ⟨rest, hpast, rfl⟩ | ⟨middle, hentries, _⟩
  · refine Or.inl ⟨⟨before, hash, rest, hpast, ?_⟩, ?_⟩
    · exact fun hresolved => hopen (hresolved.append_left entries)
    · exact fun hrevisited => hopen (Or.inl (hrevisited.append_right rest))
  · exact Or.inr ⟨middle, hash, after, hentries, hopen⟩

theorem Unresolved.mem {entries : List JournalEntry} {number : Int}
    (hunresolved : Unresolved entries number) : ∃ hash, (number, hash) ∈ withdrawals entries := by
  obtain ⟨before, hash, after, rfl, _⟩ := hunresolved
  exact ⟨hash, mem_withdrawals.mpr (by simp)⟩

/-- What a fetch gives up lies between the number it ends at and the one it began with. -/
theorem Fetches.withdrawn_bounds {window : Window} {next : Int} {entries : List JournalEntry}
    {result : Except Error (Block × Window)} (hfetch : Fetches window next entries result)
    (haligned : window.Aligned next) {number : Int} {hash : Word}
    (hmem : (number, hash) ∈ withdrawals entries) :
    next - (withdrawals entries).length ≤ number ∧ number < next := by
  cases hfetch with
  | unpolled answers =>
      have hnone := withdrawals_polled answers []
      rw [List.append_nil] at hnone
      rw [hnone] at hmem
      cases hmem
  | polled answers hwalk =>
      rw [withdrawals_polled] at hmem ⊢
      obtain ⟨kept, hsplit⟩ := hwalk.withdrawals_prefix
      have hcounts := haligned.countsDown
      rw [hsplit] at hcounts
      exact hcounts.append.1.mem hmem

/-- What a retrieval gives up is dealt with once the retrieval is reported as failed. -/
theorem Fetches.not_unresolved_reported {window : Window} {next : Int}
    {entries : List JournalEntry} {result : Except Error (Block × Window)}
    (hfetch : Fetches window next entries result) (haligned : window.Aligned next) (error : Error)
    (number : Int) : ¬ Unresolved (entries ++ [.reported (retrievalMessage next) error]) number := by
  rintro ⟨before, hash, after, hsplit, hopen⟩
  rcases split_append hsplit with ⟨walk, hentries, rfl⟩ | ⟨middle, hlast, _⟩
  · have hwalk : ∀ entry ∈ walk, Retrieves entry :=
      fun entry hentry => hfetch.retrieves entry (by simp [hentries, hentry])
    have hmem : (number, hash) ∈ withdrawals entries := mem_withdrawals.mpr (by simp [hentries])
    have hplace := (hfetch.withdrawn_bounds haligned hmem).2
    exact hopen (Or.inr ⟨walk, next, error, [], rfl, hwalk, hplace⟩)
  · have hmem : .withdrawn number hash ∈ [JournalEntry.reported (retrievalMessage next) error] := by
      simp [hlast]
    cases List.mem_singleton.mp hmem

/-- The invariant of the turns: the range comes back to every number below which it
has not dealt with a block given up. -/
structure Heedful (last : Option Int) (past : List JournalEntry) (window : Window) (next : Int) :
    Prop where
  aligned : window.Aligned next
  capacity_pos : 0 < window.capacity
  careful : Careful past
  unresolved : ∀ number, Unresolved past number → next ≤ number ∧ isBeyond last number = false

theorem isBeyond_mono {last : Option Int} {number next : Int} (hle : number ≤ next)
    (hnext : isBeyond last next = false) : isBeyond last number = false := by
  cases last with
  | none => rfl
  | some last =>
      simp only [isBeyond, Option.any_some, decide_eq_false_iff_not] at hnext ⊢
      omega

theorem Heedful.start (first : Int) (last : Option Int) :
    Heedful last [] { capacity := Window.rangeCapacity } first where
  aligned := ⟨trivial, Nat.zero_le _⟩
  capacity_pos := by decide
  careful := by
    intro before block after hsplit
    simp at hsplit
  unresolved := by
    rintro number ⟨before, hash, after, hsplit, _⟩
    simp at hsplit

theorem Heedful.fetched {last : Option Int} {past entries : List JournalEntry} {window : Window}
    {next : Int} {result : Except Error (Block × Window)} (hheedful : Heedful last past window next)
    (hnext : isBeyond last next = false) (hfetch : Fetches window next entries result)
    {number : Int} (hunresolved : Unresolved (past ++ entries) number) :
    (next ≤ number ∨ (next - (withdrawals entries).length ≤ number ∧ number < next)) ∧
      isBeyond last number = false := by
  rcases hunresolved.of_append with ⟨hpast, _⟩ | hentries
  · obtain ⟨hle, hbeyond⟩ := hheedful.unresolved number hpast
    exact ⟨Or.inl hle, hbeyond⟩
  · obtain ⟨hash, hmem⟩ := hentries.mem
    have hbounds := hfetch.withdrawn_bounds hheedful.aligned hmem
    exact ⟨Or.inr hbounds, isBeyond_mono (by omega) hnext⟩

theorem Careful.append_of_eq_nil {past entries : List JournalEntry} (hcareful : Careful past)
    (hnone : deliveries entries = []) : Careful (past ++ entries) := by
  intro before block after hsplit
  rcases split_append hsplit with ⟨rest, hpast, _⟩ | ⟨middle, hentries, _⟩
  · exact hcareful before block rest hpast
  · have hmem : block ∈ deliveries entries := mem_deliveries.mpr (by simp [hentries])
    simp [hnone] at hmem

theorem Careful.append_delivered {past : List JournalEntry} {block : Block}
    (hcareful : Careful past) (hblock : ∀ number, Unresolved past number → block.number ≤ number) :
    Careful (past ++ [.delivered block]) := by
  intro before delivered after hsplit
  rcases split_append hsplit with ⟨rest, hpast, _⟩ | ⟨middle, hentries, hbefore⟩
  · exact hcareful before delivered rest hpast
  · rcases List.singleton_eq_append_iff.mp hentries with ⟨rfl, hlast⟩ | ⟨_, hlast⟩
    · cases hlast
      simpa [hbefore] using hblock
    · cases hlast

theorem Heedful.visited {last : Option Int} {past entries : List JournalEntry}
    {window after : Window} {next : Int} {block : Block} (hheedful : Heedful last past window next)
    (hnext : isBeyond last next = false)
    (hfetch : Fetches window next entries (.ok (block, after))) :
    Heedful last (past ++ (entries ++ [.delivered block])) after (block.number + 1) := by
  obtain ⟨haligned, hcapacity⟩ := (Turns.visited hfetch).aligned hheedful.capacity_pos
    hheedful.aligned
  obtain ⟨_, _, hnumber, _⟩ := hfetch.of_ok hheedful.aligned
  -- the fetch ends at or below everything that it gave up
  have hbound (number : Int) (hunresolved : Unresolved (past ++ entries) number) :
      block.number ≤ number ∧ isBeyond last number = false := by
    obtain ⟨hplace, hbeyond⟩ := hheedful.fetched hnext hfetch hunresolved
    exact ⟨by omega, hbeyond⟩
  rw [← List.append_assoc]
  refine ⟨haligned, hcapacity ▸ hheedful.capacity_pos, ?_, ?_⟩
  · apply (hheedful.careful.append_of_eq_nil (deliveries_eq_nil hfetch.retrieves)).append_delivered
    exact fun number hunresolved => (hbound number hunresolved).1
  · intro number hunresolved
    rcases hunresolved.of_append with ⟨hpast, hopen⟩ | hentries
    · obtain ⟨hle, hbeyond⟩ := hbound number hpast
      have hne : block.number ≠ number :=
        fun heq => hopen (Or.inl ⟨block, List.mem_singleton_self _, heq⟩)
      exact ⟨by omega, hbeyond⟩
    · obtain ⟨hash, hmem⟩ := hentries.mem
      simp [withdrawals] at hmem

theorem Heedful.skipped {last : Option Int} {past entries : List JournalEntry} {window : Window}
    {next : Int} {error : Error} (hheedful : Heedful last past window next)
    (hfetch : Fetches window next entries (.error error)) :
    Heedful last (past ++ (entries ++ [.reported (retrievalMessage next) error])) window.reset
      (next + 1) := by
  refine ⟨⟨trivial, Nat.zero_le _⟩, hheedful.capacity_pos, ?_, ?_⟩
  · apply hheedful.careful.append_of_eq_nil
    rw [deliveries_append, deliveries_eq_nil hfetch.retrieves]
    rfl
  · intro number hunresolved
    rcases hunresolved.of_append with ⟨hpast, hopen⟩ | hentries
    · obtain ⟨hle, hbeyond⟩ := hheedful.unresolved number hpast
      -- the report says that the range has come to the number that was next
      have hne : next ≠ number := by
        rintro rfl
        exact hopen (Or.inr ⟨error, by simp⟩)
      exact ⟨by omega, hbeyond⟩
    · exact absurd hentries (hfetch.not_unresolved_reported hheedful.aligned error number)

theorem Heedful.turn {last : Option Int} {past entries : List JournalEntry}
    {window after : Window} {next number : Int} (hheedful : Heedful last past window next)
    (hnext : isBeyond last next = false)
    (hturns : Turns window next entries (some (after, number))) :
    Heedful last (past ++ entries) after number := by
  cases hturns with
  | visited hfetch => exact hheedful.visited hnext hfetch
  | skipped hfetch => exact hheedful.skipped hfetch

theorem Turns.deliveries_of_none {window : Window} {next : Int} {entries : List JournalEntry}
    (hturns : Turns window next entries none) : deliveries entries = [] := by
  cases hturns with
  | lost hfetch =>
      rw [deliveries_append, deliveries_eq_nil hfetch.retrieves]
      rfl
  | waiting => rfl

theorem careful_rangeEntries {settings : Settings σ} (hnumbered : settings.client.Numbered)
    (body : Run σ Unit) (first : Int) (last : Option Int) (state : RunState σ) :
    Careful (rangeEntries body first last settings state) := by
  have hcareful : Careful ([] ++ rangeEntries body first last settings state) :=
    visitEntries_induction hnumbered (Heedful last) Careful
      (fun _ _ _ hheedful => hheedful.careful)
      (fun _ _ _ _ _ _ hnext hheedful hturns => hheedful.turn hnext hturns)
      (fun _ _ _ _ _ hheedful hturns =>
        hheedful.careful.append_of_eq_nil hturns.deliveries_of_none)
      (Heedful.start first last)
  exact hcareful

/-- A range that has come to its end has dealt with every block that it gave up. -/
theorem not_unresolved_rangeEntries {settings : Settings σ}
    (hnumbered : settings.client.Numbered) {body : Run σ Unit} {first : Int} {last : Option Int}
    {state final : RunState σ}
    (hrun : (visitAll body first last).run settings state = .ok () final) (number : Int) :
    ¬ Unresolved (rangeEntries body first last settings state) number := by
  intro hunresolved
  obtain ⟨window, next, hbeyond, hheedful⟩ := visitFrom_ok_induction hnumbered (Heedful last)
    (fun _ _ _ _ _ _ hnext hheedful hturns => hheedful.turn hnext hturns)
    (Heedful.start first last) hrun
  obtain ⟨hle, hnumber⟩ := hheedful.unresolved number hunresolved
  cases last with
  | none => cases hbeyond
  | some last =>
      simp only [isBeyond, Option.any_some, decide_eq_true_eq, decide_eq_false_iff_not]
        at hbeyond hnumber
      omega

/-- A turn that gives up all of a window that has forgotten blocks ends the range in a
discontinuity, unless one of its requests fails. -/
theorem exhausted_of_withdrawals_eq {settings : Settings σ} (hnumbered : settings.client.Numbered)
    (body : Run σ Unit) (last : Option Int) {window : Window} {next : Int} {state : RunState σ}
    (haligned : window.Aligned next) (hnext : isBeyond last next = false)
    (htruncated : window.truncated = true) (hknown : window.blocks ≠ [])
    (hwithdrawn : withdrawals (turnEntries settings window next state) = window.blocks) :
    (∃ place after, ∀ patience, (visitFrom body last (patience + 1) window next).run settings state =
        .failed (.aborted (.discontinuity place window.capacity)) after) ∨
      Skipped (turnEntries settings window next state) next := by
  rcases run_fetch hnumbered window next state with
    ⟨_, stuck, _, hrun⟩ | ⟨entries, result, fetched, hfetch, hjournal, hrun⟩
  · rw [turnEntries_of_unfinished hrun] at hwithdrawn
    exact absurd hwithdrawn.symm hknown
  rcases result with error | ⟨block, kept⟩
  · rcases hfetch.error_kind rfl with hrefusal | ⟨place, depth, rfl⟩
    · refine Or.inr ⟨error, ?_⟩
      rw [turnEntries_of_refusal hrefusal hrun]
      simp
    · apply Or.inl
      obtain ⟨after, hturn, _⟩ := run_turn_of_discontinuity body hrun
      have hdepth : depth = window.capacity := by
        cases hfetch with
        | unpolled _ hrefusal => exact hrefusal.elim
        | polled _ hwalk => exact hwalk.of_discontinuity.2.2
      refine ⟨place, after, fun patience => ?_⟩
      rw [run_visitFrom_succ hnext, hturn, hdepth]
  · -- a confirmed block would need a remembered parent, but all of them were given up
    rw [turnEntries_of_ok hrun] at hwithdrawn
    obtain ⟨rest, hsplit, _, _, hadmits, _⟩ := hfetch.of_ok haligned
    have hsame : withdrawals entries = window.blocks := by
      simpa [RunState.since_eq hjournal, withdrawals] using hwithdrawn
    obtain rfl : rest = [] := by simpa [hsame] using hsplit
    exact absurd (htruncated.symm.trans hadmits) (by decide)

/-- A reorganization is not walked past in silence. No block is delivered beyond one that
was given up before that one has been delivered anew, its own retrieval has been reported as
failed, or that of the walk back which gave it up has; a range that comes to its end has
dealt with every block it gave up; and a turn that gives up all of a window that has
forgotten blocks ends the range in a discontinuity unless one of its requests fails. -/
theorem reorganization_not_walked_past {settings : Settings σ}
    (hnumbered : settings.client.Numbered) (body : Run σ Unit) (first : Int) (last : Option Int)
    (state : RunState σ) :
    Careful (rangeEntries body first last settings state) ∧
      (∀ final, (visitAll body first last).run settings state = .ok () final →
        ∀ number, ¬ Unresolved (rangeEntries body first last settings state) number) ∧
      ∀ window next reached, Reaches body first last settings state window next reached →
        isBeyond last next = false → window.truncated = true → window.blocks ≠ [] →
        withdrawals (turnEntries settings window next reached) = window.blocks →
        (∃ place after, ∀ patience,
          (visitFrom body last (patience + 1) window next).run settings reached =
            .failed (.aborted (.discontinuity place Window.rangeCapacity)) after) ∨
          Skipped (turnEntries settings window next reached) next := by
  refine ⟨careful_rangeEntries hnumbered body first last state,
    fun _ hrun => not_unresolved_rangeEntries hnumbered hrun, ?_⟩
  intro window next reached hreaches hnext htruncated hknown hwithdrawn
  obtain ⟨haligned, hcapacity⟩ := hreaches.aligned hnumbered
  rw [← hcapacity]
  exact exhausted_of_withdrawals_eq hnumbered body last haligned hnext htruncated hknown hwithdrawn

/-- A chain that forks at block 2 while block 3 is asked for, and is never refused a request. -/
theorem reorganization_not_walked_past_forked :
    (forkingSettings 2 2 []).client.Numbered ∧
      withdrawals (rangeEntries (pure ()) 1 (some 3) (forkingSettings 2 2 []) forkingStart) =
        [(2, branchHash false 2)] ∧
      Careful (rangeEntries (pure ()) 1 (some 3) (forkingSettings 2 2 []) forkingStart) ∧
      ∀ number, ¬ Unresolved
        (rangeEntries (pure ()) 1 (some 3) (forkingSettings 2 2 []) forkingStart) number := by
  obtain ⟨_, final, hrun⟩ := Outcome.exists_of_isOk (show
    ((visitAll (pure ()) 1 (some 3)).run (forkingSettings 2 2 []) forkingStart).isOk = true by
      decide +kernel)
  obtain ⟨hcareful, hresolved, _⟩ := reorganization_not_walked_past
    (forkingSettings_numbered 2 2 []) (pure ()) 1 (some 3) forkingStart
  exact ⟨forkingSettings_numbered 2 2 [], by decide +kernel, hcareful, hresolved final hrun⟩

/-- A failed retrieval does let a range go on beyond a block that was given up: here the
request for block 2 is refused after block 2 was given up, the range goes on with block 4,
which it delivers, and comes to its end without block 2 delivered anew. -/
theorem reorganization_walked_past_after_refusal :
    (forkingSettings 2 2 [3]).client.Numbered ∧
      (∃ final, (visitAll (pure ()) 1 (some 4)).run (forkingSettings 2 2 [3]) forkingStart =
        .ok () final) ∧
      ∃ before hash between block after,
        rangeEntries (pure ()) 1 (some 4) (forkingSettings 2 2 [3]) forkingStart =
          before ++ .withdrawn 2 hash :: between ++ .delivered block :: after ∧
        2 < block.number ∧ ∀ delivered ∈ deliveries (between ++ .delivered block :: after),
          delivered.number ≠ 2 := by
  obtain ⟨_, final, hrun⟩ := Outcome.exists_of_isOk (show
    ((visitAll (pure ()) 1 (some 4)).run (forkingSettings 2 2 [3]) forkingStart).isOk = true by
      decide +kernel)
  refine ⟨forkingSettings_numbered 2 2 [3], ⟨final, hrun⟩, ?_⟩
  generalize hentries :
    rangeEntries (pure ()) 1 (some 4) (forkingSettings 2 2 [3]) forkingStart = entries
  have hdelivered : deliveries ((entries.drop 13).take 1) = [branchBlock 2 true 4] := by
    subst hentries
    decide +kernel
  have hwithdrawn : withdrawals (((entries.take 13).drop 8).take 1) = [(2, branchHash false 2)] := by
    subst hentries
    decide +kernel
  have hbetween : deliveries ((entries.take 13).drop 9) = [] ∧ deliveries (entries.drop 14) = [] := by
    subst hentries
    decide +kernel
  refine ⟨(entries.take 13).take 8, branchHash false 2, (entries.take 13).drop 9,
    branchBlock 2 true 4, entries.drop 14, ?_, by decide, ?_⟩
  · rw [← split_at_withdrawn hwithdrawn]
    exact split_at_delivered hdelivered
  · rw [deliveries_append, hbetween.1]
    simp only [deliveries] at hbetween ⊢
    simp [hbetween.2]
    decide

end ChainExtract.BlockRange
