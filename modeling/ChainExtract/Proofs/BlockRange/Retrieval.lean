import ChainExtract.Filter.BlockRange
import ChainExtract.Proofs.Upholding

/-! # What ranges of blocks maintain

A range retrieves a block by polls, by requests for blocks and by giving up
remembered ones. What these three maintain is maintained however the retrieval ends.
Between two blocks of a range one property holds, in a block another: a range that is
given what its body does in a block leaves the first one behind however it ends.
-/

namespace ChainExtract.BlockRange

variable {σ : Type} {settings : Settings σ} {P : RunState σ → Prop} {E : Error → Prop}

/-- The steps of a retrieval maintain the property. -/
structure RetrievalStable (settings : Settings σ) (P : RunState σ → Prop) : Prop where
  polled : ∀ state, P state → P
    { state with
      chain := (settings.client.head state.chain).2
      journal := .head (settings.client.head state.chain).1 :: state.journal }
  requested : ∀ state number, P state → P
    { state with
      chain := (settings.client.block number state.chain).2
      journal := .block number (settings.client.block number state.chain).1 :: state.journal }
  withdrawn : ∀ state number hash, P state → P
    { state with journal := .withdrawn number hash :: state.journal }

theorem maintains_confirm (hstable : RetrievalStable settings P)
    (hclosed : ∀ state, P state → state.closed = true → E .readerClosed)
    (hrefused : ∀ words failure, E (.ofFailure words failure))
    (hlost : ∀ number depth, E (.discontinuity number depth)) (window : Window) (number : Int) :
    (confirm window number).Maintains settings P (fun _ => True) E := by
  induction window, number using confirm.induct with
  | case1 window number ih =>
    have hblock : (Run.blockOf number).Maintains settings P (fun _ => True) E := by
      apply Run.maintains_request
      · exact fun state hstate => hstable.requested state number hstate
      · exact fun _ _ _ _ => trivial
      · exact hclosed
      · exact hrefused _
    rw [confirm]
    apply hblock.bind
    intro block _
    split
    · split
      · exact Run.maintains_fail (hlost _ _)
      · exact Run.maintains_pure trivial
    · split
      · exact Run.maintains_pure trivial
      next known hash rest hblocks _ =>
        have hnote : (Run.note (.withdrawn known hash)).Maintains settings P (fun _ => True) E :=
          Run.maintains_modify fun state hstate => hstable.withdrawn state known hash hstate
        exact hnote.bind fun _ _ => ih known hash rest hblocks

theorem maintains_waitFor (hstable : RetrievalStable settings P)
    (hclosed : ∀ state, P state → state.closed = true → E .readerClosed)
    (hrefused : ∀ words failure, E (.ofFailure words failure)) (number : Int) (patience : Nat) :
    (Run.waitFor number patience).Maintains settings P (fun _ => True) E := by
  have hlatest : Run.latest.Maintains settings P (fun _ => True) E := by
    apply Run.maintains_request
    · exact hstable.polled
    · exact fun _ _ _ _ => trivial
    · exact hclosed
    · exact hrefused _
  induction patience with
  | zero => exact Run.maintains_giveUp
  | succ patience ih =>
      apply hlatest.bind
      intro head _
      split
      · exact ih
      · exact Run.maintains_pure trivial

theorem maintains_fetch (hstable : RetrievalStable settings P)
    (hclosed : ∀ state, P state → state.closed = true → E .readerClosed)
    (hrefused : ∀ words failure, E (.ofFailure words failure))
    (hlost : ∀ number depth, E (.discontinuity number depth)) (window : Window) (next : Int)
    {E' : Error → Prop} :
    (fetch window next).Maintains settings P
      (fun fetched => ∀ error, fetched = .error error → E error) E' := by
  have hfetch : (do
      Run.waitFor next (← Run.settings).patience
      confirm window next).Maintains settings P (fun _ => True) E :=
    Run.maintains_settings.bind fun _ _ =>
      (maintains_waitFor hstable hclosed hrefused next _).bind fun _ _ =>
        maintains_confirm hstable hclosed hrefused hlost window next
  exact hfetch.attempt.imp (fun _ houtcome => houtcome.2) fun _ herror => herror

theorem upholds_fetch (hstable : RetrievalStable settings P) (window : Window) (next : Int) :
    (fetch window next).Upholds settings P := by
  have hfetch : (fetch window next).Maintains settings P _ fun _ => True :=
    maintains_fetch (E := fun _ => True) hstable (fun _ _ _ => trivial) (fun _ _ => trivial)
      (fun _ _ => trivial) window next
  exact hfetch.upholds

/-- What a range does besides its body: `P` holds between two blocks, `B` where the body of a
block begins, and `I` from where it has ended on until the block is left. -/
structure RangeSteps (settings : Settings σ) (P : RunState σ → Prop)
    (B : Block → RunState σ → Prop) (I : RunState σ → Prop) (E : Error → Prop)
    (U : RunState σ → Prop) : Prop where
  retrieval : RetrievalStable settings P
  outside : Run.Settles settings P E
  inside : Run.Settles settings I E
  enter : ∀ state block, P state →
    B block { state with cursor := .atBlock block, journal := .delivered block :: state.journal }
  leave : ∀ state, I state → P { state with cursor := .empty }
  finished : ∀ extent, (Run.finish extent).Ensures settings I
    (fun failure? after => I after ∧ ∀ error, failure? = some error → E error)
    (fun error after => I after ∧ E error) U
  closed : E .readerClosed
  refused : ∀ words failure, E (.ofFailure words failure)
  lost : ∀ number depth, E (.discontinuity number depth)
  unfinished : ∀ state, P state → U state

section

variable {I U : RunState σ → Prop} {B : Block → RunState σ → Prop} {body : Run σ Unit}

theorem sustains_visit (hsteps : RangeSteps settings P B I E U) {block : Block}
    (hbody : body.Ensures settings (B block) (fun _ => I) (fun error after => I after ∧ E error) U) :
    (visit body block).Sustains settings P E U := by
  have hends : (do
      Run.conclude s!"error processing block {Numeral.decimal block.number}" (← body.attempt)
      let failure? ← Run.finish (.block block.number)
      Run.conclude s!"error exporting block {Numeral.decimal block.number}"
        (failure?.elim (.ok ()) .error)).Ensures settings (B block) (fun _ => I)
          (fun error after => I after ∧ E error) U := by
    refine Run.Ensures.bind hbody.attempt_unit fun outcome state hstate => ?_
    refine (Run.sustains_conclude hsteps.inside _ hstate.2).bind (fun _ =>
      (hsteps.finished _).bind fun failure? after hafter =>
        Run.sustains_conclude hsteps.inside _ ?_ after hafter.1) state hstate.1
    cases failure? with
    | none => simp
    | some failure => simpa using hafter.2
  intro state hstate
  exact Run.ensures_undone hends hsteps.leave _ (hsteps.enter state block hstate)

theorem sustains_turn (hsteps : RangeSteps settings P B I E U)
    (hbody : ∀ block, body.Ensures settings (B block) (fun _ => I)
      (fun error after => I after ∧ E error) U) (window : Window) (next : Int) :
    (turn body window next).Sustains settings P E U := by
  have hfetch : (fetch window next).Maintains settings P
      (fun fetched => ∀ error, fetched = .error error → E error) E :=
    maintains_fetch hsteps.retrieval (fun _ _ _ => hsteps.closed) hsteps.refused hsteps.lost _ _
  refine Run.Ensures.bind (hfetch.ensures hsteps.unfinished) fun fetched state hfetched => ?_
  obtain ⟨hstate, herror⟩ := hfetched
  split
  · exact (sustains_visit hsteps (hbody _)).bind (fun _ => Run.sustains_pure _) state hstate
  next number depth =>
    have hlost := herror _ rfl
    exact (Run.sustains_report hsteps.outside _ hlost).bind
      (fun _ => Run.sustains_fail (hsteps.outside.aborted _ hlost)) state hstate
  next error _ =>
    exact (Run.sustains_settle hsteps.outside _ (herror error rfl)).bind
      (fun _ => Run.sustains_pure _) state hstate

/-- What holds between two blocks holds wherever the range ends, unless it does not end. -/
theorem sustains_visitAll (hsteps : RangeSteps settings P B I E U)
    (hbody : ∀ block, body.Ensures settings (B block) (fun _ => I)
      (fun error after => I after ∧ E error) U) (first : Int) (last : Option Int) :
    (visitAll body first last).Sustains settings P E U := by
  have hvisits (patience : Nat) (window : Window) (next : Int) :
      (visitFrom body last patience window next).Sustains settings P E U := by
    induction patience generalizing window next with
    | zero =>
        rw [visitFrom]
        split
        · exact Run.sustains_pure ()
        · exact hsteps.unfinished
    | succ patience ih =>
        rw [visitFrom]
        split
        · exact Run.sustains_pure ()
        · exact (sustains_turn hsteps hbody window next).bind fun follow => ih follow.1 follow.2
  intro state hstate
  exact hvisits _ _ first state hstate

end

/-- The steps of a range besides its body maintain the property. -/
structure RangeStable (settings : Settings σ) (P : RunState σ → Prop) : Prop where
  visits : Run.VisitStable settings P
  retrieval : RetrievalStable settings P
  delivered : ∀ state block, P state → P
    { state with journal := .delivered block :: state.journal }
  finished : ∀ extent, (Run.finish extent).Upholds settings P

theorem RangeStable.steps (hstable : RangeStable settings P) :
    RangeSteps settings P (fun _ => P) P (fun _ => True) P where
  retrieval := hstable.retrieval
  outside := hstable.visits.settles
  inside := hstable.visits.settles
  enter := fun state block hstate =>
    hstable.visits.cursor _ (.atBlock block) (hstable.delivered state block hstate)
  leave := fun state => hstable.visits.cursor state .empty
  finished := fun extent => Run.Ensures.imp (hstable.finished extent).sustains (fun _ h => h)
    (fun _ _ hafter => ⟨hafter, fun _ _ => trivial⟩) (fun _ _ h => h) fun _ h => h
  closed := trivial
  refused := fun _ _ => trivial
  lost := fun _ _ => trivial
  unfinished := fun _ h => h

/-- What every turn of a range upholds, the whole range upholds. -/
theorem upholds_visitAll (hstable : RangeStable settings P) {body : Run σ Unit}
    (hbody : body.Upholds settings P) (first : Int) (last : Option Int) :
    (visitAll body first last).Upholds settings P :=
  (sustains_visitAll hstable.steps (fun _ => hbody.sustains) first last).upholds

end ChainExtract.BlockRange
