import ChainExtract.Proofs.BlockRange.Entries
import ChainExtract.Proofs.Upholding

/-! # Where the entries of a range stand

The journal of a run holds all entries that a range makes itself, in their order. Between
them stands what the body of the range enters, polls of a retrieval that did not end, and
failures of visits. Where the body has no ranges of its own, the requests for blocks, the blocks
given up and the blocks handed over are thus exactly those of the range.
-/

namespace ChainExtract

variable {σ χ α β : Type}

namespace Journal

/-- Own entries stand in a journal in their order, and all others are of some kind. -/
inductive Among (Other : JournalEntry → Prop) : (own entries : List JournalEntry) → Prop
  | nil : Among Other [] []
  | own (entry : JournalEntry) {own entries : List JournalEntry} (hrest : Among Other own entries) :
      Among Other (entry :: own) (entry :: entries)
  | other {entry : JournalEntry} {own entries : List JournalEntry} (hother : Other entry)
      (hrest : Among Other own entries) : Among Other own (entry :: entries)

variable {Other : JournalEntry → Prop} {own entries own' entries' : List JournalEntry}

theorem Among.refl (own : List JournalEntry) : Among Other own own := by
  induction own with
  | nil => exact .nil
  | cons entry own ih => exact .own entry ih

theorem Among.of_forall (hother : ∀ entry ∈ entries, Other entry) : Among Other [] entries := by
  induction entries with
  | nil => exact .nil
  | cons entry entries ih =>
      obtain ⟨hentry, hrest⟩ := List.forall_mem_cons.mp hother
      exact .other hentry (ih hrest)

theorem Among.append (hfirst : Among Other own entries) (hsecond : Among Other own' entries') :
    Among Other (own ++ own') (entries ++ entries') := by
  induction hfirst with
  | nil => exact hsecond
  | own entry _ ih => exact .own entry ih
  | other hother _ ih => exact .other hother ih

theorem Among.sublist (hamong : Among Other own entries) : own.Sublist entries := by
  induction hamong with
  | nil => exact .slnil
  | own entry _ ih => exact ih.cons_cons entry
  | other _ _ ih => exact ih.cons _

/-- What is read from no other entry is read from the own ones. -/
theorem Among.filterMap_eq {read : JournalEntry → Option β}
    (hother : ∀ entry, Other entry → read entry = none) (hamong : Among Other own entries) :
    entries.filterMap read = own.filterMap read := by
  induction hamong with
  | nil => rfl
  | own entry _ ih => simp only [List.filterMap_cons, ih]
  | other hentry _ ih => rw [List.filterMap_cons_none (hother _ hentry), ih]

/-- Entries that only ranges make: requests for blocks, blocks given up and blocks handed over. -/
def OfRange : JournalEntry → Prop
  | .block _ _ | .withdrawn _ _ | .delivered _ => True
  | _ => False

/-- The entries tell the same of blocks as the own ones. -/
structure AgreeOnBlocks (own entries : List JournalEntry) : Prop where
  requests : requests entries = requests own
  withdrawals : withdrawals entries = withdrawals own
  deliveries : deliveries entries = deliveries own

theorem Among.agreeOnBlocks (hamong : Among (¬ OfRange ·) own entries) :
    AgreeOnBlocks own entries := by
  constructor
  all_goals
    refine hamong.filterMap_eq fun entry hother => ?_
    cases entry <;> first | rfl | exact absurd trivial hother

end Journal

open Journal

namespace RunState

/-- From the earlier state to the later one the own entries were made, among others. -/
def Makes (Other : JournalEntry → Prop) (own : List JournalEntry)
    (earlier later : RunState σ) : Prop :=
  ∃ entries, later.journal = entries.reverse ++ earlier.journal ∧ Among Other own entries

variable {Other : JournalEntry → Prop} {own own' : List JournalEntry}
variable {earlier middle later : RunState σ}

theorem Makes.of_journal_eq (hjournal : later.journal = own.reverse ++ earlier.journal) :
    Makes Other own earlier later := ⟨own, hjournal, .refl own⟩

theorem Makes.trans (hfirst : Makes Other own earlier middle)
    (hsecond : Makes Other own' middle later) : Makes Other (own ++ own') earlier later := by
  obtain ⟨entries, hjournal, hamong⟩ := hfirst
  obtain ⟨entries', hjournal', hamong'⟩ := hsecond
  exact ⟨entries ++ entries', by simp [hjournal, hjournal'], hamong.append hamong'⟩

theorem Makes.other {entry : JournalEntry} (hmakes : Makes Other own earlier middle)
    (hother : Other entry) (hjournal : later.journal = entry :: middle.journal) :
    Makes Other own earlier later := by
  have hentry : Makes Other [] middle later := ⟨[entry], hjournal, .other hother .nil⟩
  simpa using hmakes.trans hentry

theorem Makes.among_since (hmakes : Makes Other own earlier later) :
    Among Other own (later.since earlier) := by
  obtain ⟨entries, hjournal, hamong⟩ := hmakes
  rwa [since_eq hjournal]

/-- Where entries of all kinds may be made, the journal just grows. -/
theorem makes_nil_eq (start : RunState σ) : Makes (fun _ => True) [] start = Run.Extends start := by
  ext later
  constructor
  · rintro ⟨entries, hjournal, _⟩
    exact ⟨entries.reverse, hjournal.symm⟩
  · intro hextends
    exact ⟨_, journal_eq_since hextends, .of_forall fun _ _ => trivial⟩

end RunState

open RunState

namespace Run

variable {settings : Settings σ} {Other : JournalEntry → Prop}

/-- A run that makes no own entries leaves those that were made as they are. -/
theorem upholds_makes {x : Run σ α} (hx : ∀ start, x.Upholds settings (Makes Other [] start))
    (own : List JournalEntry) (start : RunState σ) : x.Upholds settings (Makes Other own start) := by
  intro state hstate
  have hends := hx state state (.of_journal_eq rfl)
  have htrans (after : RunState σ) (hafter : Makes Other [] state after) :
      Makes Other own start after := by simpa using hstate.trans hafter
  cases hrun : x.run settings state with
  | ok | failed =>
      rw [hrun] at hends
      exact ⟨htrans _ hends.1, trivial⟩
  | unfinished =>
      rw [hrun] at hends
      exact htrans _ hends

theorem Upholds.ends {P : RunState σ → Prop} {x : Run σ α} (hx : x.Upholds settings P)
    {state : RunState σ} (hstate : P state) : (x.run settings state).Ends P := by
  have hends := hx state hstate
  cases hrun : x.run settings state with
  | ok | failed =>
      rw [hrun] at hends
      exact hends.1
  | unfinished =>
      rw [hrun] at hends
      exact hends

theorem visitStable_makes (hreported : ∀ message error, Other (.reported message error))
    (own : List JournalEntry) (start : RunState σ) :
    VisitStable settings (Makes Other own start) where
  cursor := fun _ _ hstate => hstate
  reported := fun _ message error hstate => hstate.other (hreported message error) rfl

theorem stable_makes (start : RunState σ) :
    Stable settings (Makes (¬ OfRange ·) [] start) where
  visits := visitStable_makes (fun _ _ => id) [] start
  operands := {
    assigned := fun _ _ _ hstate => hstate.other id rfl
    queried := fun _ _ hstate => hstate.other id rfl }
  erased := fun _ _ hstate => hstate
  emitted := fun _ _ hstate => hstate.other id rfl

end Run

namespace BlockRange

/-- Entries that a range may make besides its own: polls in a retrieval that does not end, and
failures of visits. -/
structure Tolerates (Other : JournalEntry → Prop) : Prop where
  head : ∀ answer, Other (.head answer)
  reported : ∀ message error, Other (.reported message error)

variable {settings : Settings σ} {Other : JournalEntry → Prop} {body : Run σ Unit}

theorem makes_visit (htolerates : Tolerates Other)
    (hbody : ∀ start, body.Upholds settings (Makes Other [] start)) (block : Block)
    (state : RunState σ) :
    ((visit body block).run settings state).Ends (Makes Other [.delivered block] state) := by
  have hstable : Run.VisitStable settings (Makes Other [.delivered block] state) :=
    Run.visitStable_makes htolerates.reported _ state
  have hbody := Run.upholds_makes hbody [.delivered block] state
  have hfinish (extent : Extent) :
      (Run.finish extent).Upholds settings (Makes Other [.delivered block] state) :=
    fun _ hstate => ⟨hstate, trivial⟩
  obtain ⟨rest, hvisit, hrest⟩ : ∃ rest : Run σ Unit,
      visit body block = (Run.note (.delivered block) >>= fun _ => rest) ∧
        rest.Upholds settings (Makes Other [.delivered block] state) := by
    refine ⟨_, rfl, (Run.upholds_setCursor hstable _).bind fun _ => Run.Upholds.bind ?_
      fun outcome => (Run.upholds_setCursor hstable _).bind fun _ => Run.upholds_ofExcept outcome⟩
    apply Run.Upholds.attempt
    exact hbody.attempt.bind fun _ => (Run.upholds_conclude hstable _ _).bind fun _ =>
      (hfinish _).bind fun _ => Run.upholds_conclude hstable _ _
  rw [hvisit, Run.run_bind, Run.run_note]
  exact hrest.ends (.of_journal_eq rfl)

/-- A turn makes its entries, and ends in a visit if it has fetched a block. -/
theorem makes_turn (hnumbered : settings.client.Numbered) (htolerates : Tolerates Other)
    (hbody : ∀ start, body.Upholds settings (Makes Other [] start)) (window : Window) (next : Int)
    (state : RunState σ) :
    ((turn body window next).run settings state).Ends
      (Makes Other (turnEntries settings window next state) state) := by
  rcases run_fetch hnumbered window next state with
    ⟨answers, stuck, hpolled, hrun⟩ | ⟨entries, result, fetched, hfetch, hjournal, hrun⟩
  · rw [turn, Run.run_bind, hrun, turnEntries_of_unfinished hrun]
    refine ⟨_, hpolled, .of_forall fun entry hentry => ?_⟩
    obtain ⟨answer, _, rfl⟩ := List.mem_map.mp hentry
    exact htolerates.head answer
  rcases result with error | ⟨block, kept⟩
  · rcases hfetch.error_kind rfl with hrefusal | ⟨number, depth, rfl⟩
    · have hreported : error.isAborted = false := by
        cases error <;> first | rfl | exact hrefusal.elim
      have hmakes : Makes Other (turnEntries settings window next state) state
          (Run.reported (retrievalMessage next) error settings fetched) := by
        refine .of_journal_eq ?_
        rw [turnEntries_of_refusal hrefusal hrun, RunState.since_eq hjournal]
        simp [Run.reported, hjournal]
      rw [run_turn_of_refusal hrefusal hrun, Run.run_settle hreported]
      cases settings.abortOnFailure <;> exact hmakes
    · obtain ⟨after, hfailed, hafter⟩ := run_turn_of_discontinuity body hrun
      rw [hfailed, turnEntries_of_discontinuity hrun, RunState.since_eq hjournal]
      exact .of_journal_eq (by simp [hafter, hjournal])
  · have hfetched : Makes Other entries state fetched := .of_journal_eq hjournal
    have hvisit := makes_visit htolerates hbody block fetched
    rw [run_turn_of_ok hrun, turnEntries_of_ok hrun, RunState.since_eq hjournal]
    cases hresult : (visit body block).run settings fetched with
    | ok | failed | unfinished =>
        rw [hresult] at hvisit
        exact hfetched.trans hvisit

theorem makes_visitFrom (hnumbered : settings.client.Numbered) (htolerates : Tolerates Other)
    (hbody : ∀ start, body.Upholds settings (Makes Other [] start)) (last : Option Int)
    (patience : Nat) (window : Window) (next : Int) (state : RunState σ) :
    ((visitFrom body last patience window next).run settings state).Ends
      (Makes Other (visitEntries body last settings patience window next state) state) := by
  induction patience generalizing window next state with
  | zero =>
      cases hnext : isBeyond last next with
      | true =>
          rw [run_visitFrom_of_beyond hnext]
          exact .of_journal_eq rfl
      | false =>
          rw [run_visitFrom_zero hnext]
          exact .of_journal_eq rfl
  | succ patience ih =>
      cases hnext : isBeyond last next with
      | true =>
          rw [run_visitFrom_of_beyond hnext, visitEntries, if_pos hnext]
          exact .of_journal_eq rfl
      | false =>
          have hfirst := makes_turn hnumbered htolerates hbody window next state
          simp only [run_visitFrom_succ hnext, visitEntries, hnext, Bool.false_eq_true,
            ↓reduceIte]
          cases hturn : (turn body window next).run settings state with
          | ok follow middle =>
              rw [hturn] at hfirst
              have hrest := ih follow.1 follow.2 middle
              simp only
              cases hrun : (visitFrom body last patience follow.1 follow.2).run settings middle with
              | ok | failed | unfinished =>
                  rw [hrun] at hrest
                  exact hfirst.trans hrest
          | failed | unfinished =>
              rw [hturn] at hfirst
              rwa [List.append_nil]

/-- What a range enters itself stands in the journal in this order, among what its body enters,
polls and failures of visits. -/
theorem among_rangeEntries (hnumbered : settings.client.Numbered) (htolerates : Tolerates Other)
    (hbody : ∀ start, body.Upholds settings (Makes Other [] start)) (first : Int)
    (last : Option Int) (state : RunState σ) :
    ((visitAll body first last).run settings state).Ends fun final =>
      Among Other (rangeEntries body first last settings state) (final.since state) := by
  have hmakes := makes_visitFrom hnumbered htolerates hbody last settings.patience
    { capacity := Window.rangeCapacity } first state
  exact hmakes.imp fun _ hfinal => hfinal.among_since

/-- Whatever the body of a range enters, all that the range enters itself is in the journal. -/
theorem rangeEntries_sublist (hnumbered : settings.client.Numbered)
    (hbody : ∀ start, body.Upholds settings (Run.Extends start)) (first : Int)
    (last : Option Int) (state : RunState σ) :
    ((visitAll body first last).run settings state).Ends fun final =>
      (rangeEntries body first last settings state).Sublist (final.since state) := by
  have hmakes (start : RunState σ) : body.Upholds settings (Makes (fun _ => True) [] start) := by
    rw [makes_nil_eq]
    exact hbody start
  have hamong := among_rangeEntries hnumbered ⟨fun _ => trivial, fun _ _ => trivial⟩ hmakes first
    last state
  exact hamong.imp fun _ hfinal => hfinal.sublist

/-- The requests for blocks, the blocks given up and the blocks handed over in the run of a range
are its own if its body makes no such entries. -/
theorem agreeOnBlocks_of_visitAll (hnumbered : settings.client.Numbered)
    (hbody : ∀ start, body.Upholds settings (Makes (¬ OfRange ·) [] start)) (first : Int)
    (last : Option Int) (state : RunState σ) :
    ((visitAll body first last).run settings state).Ends fun final =>
      AgreeOnBlocks (rangeEntries body first last settings state) (final.since state) := by
  have hamong := among_rangeEntries hnumbered ⟨fun _ => id, fun _ _ => id⟩ hbody first last state
  exact hamong.imp fun _ hfinal => hfinal.agreeOnBlocks

end BlockRange

/-- Instructions without ranges of their own make no entries of ranges, whatever they do with the
blocks of a range that they are the body of. -/
theorem Instruction.agreeOnBlocks_of_rangeFree {settings : Settings σ}
    (hnumbered : settings.client.Numbered) {further : χ → Run σ Unit}
    (hfurther : ∀ instruction start,
      (further instruction).Upholds settings (Makes (¬ OfRange ·) [] start))
    {body : List (Instruction χ)} (hfree : RangeFreeAll body) (first : Int) (last : Option Int)
    (state : RunState σ) :
    ((BlockRange.visitAll (executeAll further body) first last).run settings state).Ends
      fun final => AgreeOnBlocks
        (BlockRange.rangeEntries (executeAll further body) first last settings state)
        (final.since state) :=
  BlockRange.agreeOnBlocks_of_visitAll hnumbered (fun start =>
    upholds_executeAll (Run.stable_makes start) (fun i => hfurther i start) body hfree) first last
      state

end ChainExtract
