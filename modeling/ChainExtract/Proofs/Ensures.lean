import ChainExtract.Filter.Items
import ChainExtract.Proofs.Maintains

/-! # What runs ensure

Triples for runs: from states with one property a run ends with a result, in a failure
or not at all, each time with a property of its own. Visits of items are given what
holds between two items, and what holds while an item is being visited.
-/

namespace ChainExtract

variable {σ α β : Type}

/-- The run has ended with a result as `Q` says, in a failure as `H` says, or has come as far
as `U` says. -/
def Outcome.Satisfies (Q : α → RunState σ → Prop) (H : Error → RunState σ → Prop)
    (U : RunState σ → Prop) : Outcome σ α → Prop
  | .ok result after => Q result after
  | .failed error after => H error after
  | .unfinished (s := after) => U after

theorem Outcome.Satisfies.imp {Q Q' : α → RunState σ → Prop} {H H' : Error → RunState σ → Prop}
    {U U' : RunState σ → Prop} {outcome : Outcome σ α} (hends : outcome.Satisfies Q H U)
    (hresult : ∀ result after, Q result after → Q' result after)
    (hfailure : ∀ error after, H error after → H' error after)
    (hunfinished : ∀ after, U after → U' after) : outcome.Satisfies Q' H' U' := by
  cases outcome with
  | ok result after => exact hresult result after hends
  | failed error after => exact hfailure error after hends
  | unfinished => exact hunfinished _ hends

namespace Run

def Ensures (settings : Settings σ) (P : RunState σ → Prop) (Q : α → RunState σ → Prop)
    (H : Error → RunState σ → Prop) (U : RunState σ → Prop) (x : Run σ α) : Prop :=
  ∀ state, P state → (x.run settings state).Satisfies Q H U

/-- From states with the property `P` a run ends in such states only, with failures that have
`E`. -/
abbrev Sustains (settings : Settings σ) (P : RunState σ → Prop) (E : Error → Prop)
    (U : RunState σ → Prop) (x : Run σ α) : Prop :=
  x.Ensures settings P (fun _ => P) (fun error after => P after ∧ E error) U

variable {settings : Settings σ} {P P' U U' : RunState σ → Prop} {Q Q' : α → RunState σ → Prop}
variable {R : β → RunState σ → Prop} {H H' : Error → RunState σ → Prop} {E E' : Error → Prop}

theorem Ensures.bind {x : Run σ α} {f : α → Run σ β} (hx : x.Ensures settings P Q H U)
    (hf : ∀ result, (f result).Ensures settings (Q result) R H U) :
    (x >>= f).Ensures settings P R H U := by
  intro state hstate
  have hfirst := hx state hstate
  rw [run_bind]
  cases hrun : x.run settings state with
  | ok result middle =>
      rw [hrun] at hfirst
      exact hf result middle hfirst
  | failed | unfinished =>
      rw [hrun] at hfirst
      exact hfirst

theorem Ensures.imp {x : Run σ α} (hx : x.Ensures settings P Q H U)
    (hbefore : ∀ state, P' state → P state)
    (hresult : ∀ result after, Q result after → Q' result after)
    (hfailure : ∀ error after, H error after → H' error after)
    (hunfinished : ∀ after, U after → U' after) : x.Ensures settings P' Q' H' U' :=
  fun state hstate => (hx state (hbefore state hstate)).imp hresult hfailure hunfinished

theorem Sustains.imp {x : Run σ α} (hx : x.Sustains settings P E U)
    (herror : ∀ error, E error → E' error) (hunfinished : ∀ after, U after → U' after) :
    x.Sustains settings P E' U' :=
  Ensures.imp hx (fun _ h => h) (fun _ _ h => h) (fun error _ h => ⟨h.1, herror error h.2⟩)
    hunfinished

theorem Ensures.and {x : Run σ α} (hx : x.Ensures settings P Q H U)
    (hx' : x.Ensures settings P' Q' H' U') :
    x.Ensures settings (fun state => P state ∧ P' state)
      (fun result after => Q result after ∧ Q' result after)
      (fun error after => H error after ∧ H' error after) fun after => U after ∧ U' after := by
  intro state hstate
  have hfirst := hx state hstate.1
  have hsecond := hx' state hstate.2
  cases hrun : x.run settings state <;> rw [hrun] at hfirst hsecond <;> exact ⟨hfirst, hsecond⟩

/-- The outcome of a run as a value. -/
theorem Ensures.attempt {x : Run σ α} (hx : x.Ensures settings P Q H U) :
    x.attempt.Ensures settings P
      (fun outcome after => (∀ result, outcome = .ok result → Q result after) ∧
        ∀ error, outcome = .error error → H error after) H' U := by
  intro state hstate
  have hends := hx state hstate
  rw [run_attempt]
  cases hrun : x.run settings state with
  | ok result after =>
      rw [hrun] at hends
      exact ⟨fun _ heq => Except.ok.inj heq ▸ hends, by simp⟩
  | failed error after =>
      rw [hrun] at hends
      exact ⟨by simp, fun _ heq => Except.error.inj heq ▸ hends⟩
  | unfinished =>
      rw [hrun] at hends
      exact hends

theorem Ensures.of_ok {x : Run σ α} (hx : x.Ensures settings P Q H U) {state after : RunState σ}
    {result : α} (hstate : P state) (hrun : x.run settings state = .ok result after) :
    Q result after := by
  have hends := hx state hstate
  rwa [hrun] at hends

/-- What holds wherever a run ends, it ensures. -/
theorem Maintains.ensures {R : α → Prop} {x : Run σ α} (hx : x.Maintains settings P R E)
    (hunfinished : ∀ state, P state → U state) :
    x.Ensures settings P (fun result after => P after ∧ R result)
      (fun error after => P after ∧ E error) U := by
  intro state hstate
  have hends := hx state hstate
  cases hrun : x.run settings state with
  | ok | failed =>
      rw [hrun] at hends
      exact hends
  | unfinished =>
      rw [hrun] at hends
      exact hunfinished _ hends

theorem Sustains.maintains {x : Run σ α} (hx : x.Sustains settings P E P) :
    x.Maintains settings P (fun _ => True) E := by
  intro state hstate
  have hends := hx state hstate
  cases hrun : x.run settings state with
  | ok =>
      rw [hrun] at hends
      exact ⟨hends, trivial⟩
  | failed | unfinished =>
      rw [hrun] at hends
      exact hends

theorem ensures_pure {result : α} (hresult : ∀ state, P state → Q result state) :
    (Pure.pure result : Run σ α).Ensures settings P Q H U :=
  hresult

theorem sustains_pure (result : α) : (Pure.pure result : Run σ α).Sustains settings P E U :=
  fun _ hstate => hstate

theorem sustains_fail {error : Error} (herror : E error) :
    (fail error : Run σ α).Sustains settings P E U :=
  fun _ hstate => ⟨hstate, herror⟩

theorem sustains_ofExcept {outcome : Except Error α}
    (herror : ∀ error, outcome = .error error → E error) :
    (ofExcept outcome).Sustains settings P E U := by
  cases outcome with
  | ok result => exact sustains_pure result
  | error error => exact sustains_fail (herror error rfl)

theorem ensures_state :
    (Run.state : Run σ _).Ensures settings P (fun found after => P after ∧ found = after) H U :=
  fun _ hstate => ⟨hstate, rfl⟩

theorem sustains_modify {f : RunState σ → RunState σ} (hkeeps : ∀ state, P state → P (f state)) :
    (modify f).Sustains settings P E U :=
  hkeeps

/-- The property outlasts reports of failures with `E`, and so does the run that stops behind
such a failure. -/
structure Settles (settings : Settings σ) (P : RunState σ → Prop) (E : Error → Prop) : Prop where
  reported : ∀ state message error, P state → E error →
    P (reported message error settings state)
  aborted : ∀ error, E error → E (.aborted error)

theorem sustains_report (hsettles : Settles settings P E) (message : String) {error : Error}
    (herror : E error) : (report message error).Sustains settings P E U :=
  fun state hstate => hsettles.reported state message error hstate herror

theorem sustains_settle (hsettles : Settles settings P E) (message : String) {error : Error}
    (herror : E error) : (settle message error).Sustains settings P E U := by
  intro state hstate
  cases haborted : error.isAborted with
  | true =>
      rw [settle, haborted]
      exact ⟨hstate, herror⟩
  | false =>
      have hreported := hsettles.reported state message error hstate herror
      rw [run_settle haborted]
      split
      · exact ⟨hreported, hsettles.aborted error herror⟩
      · exact hreported

theorem sustains_conclude (hsettles : Settles settings P E) (message : String)
    {outcome : Except Error Unit} (houtcome : ∀ error, outcome = .error error → E error) :
    (conclude message outcome).Sustains settings P E U := by
  cases outcome with
  | ok => exact sustains_pure ()
  | error error => exact sustains_settle hsettles message (houtcome error rfl)

variable {I : RunState σ → Prop} {x : Run σ Unit}

/-- What holds of a state in which a run has ended, and of its failure if it is one. -/
theorem Ensures.attempt_unit
    (hx : x.Ensures settings P (fun _ => I) (fun error after => I after ∧ E error) U) :
    x.attempt.Ensures settings P
      (fun outcome after => I after ∧ ∀ error, outcome = .error error → E error) H U := by
  refine hx.attempt.imp (fun _ h => h) (fun outcome after hends => ?_) (fun _ _ h => h)
    fun _ h => h
  cases outcome with
  | ok => exact ⟨hends.1 () rfl, by simp⟩
  | error error =>
      have hfailed := hends.2 error rfl
      exact ⟨hfailed.1, fun _ heq => Except.error.inj heq ▸ hfailed.2⟩

/-- Something is undone however a run has ended. -/
theorem ensures_undone {undo : RunState σ → RunState σ}
    (hx : x.Ensures settings P (fun _ => I) (fun error after => I after ∧ E error) U)
    (hundo : ∀ state, I state → P' (undo state)) :
    (do
      let outcome ← x.attempt
      modify undo
      ofExcept outcome).Ensures settings P (fun _ => P') (fun error after => P' after ∧ E error)
        U := by
  refine Ensures.bind hx.attempt_unit fun outcome state hstate => ?_
  have hundone := hundo state hstate.1
  cases outcome with
  | ok => exact hundone
  | error error => exact ⟨hundone, hstate.2 error rfl⟩

/-- The visit of an item: how it has ended is kept, the cursor leaves the item, and its failure
is settled. -/
theorem ensures_concluded {leave : Cursor → Cursor} (hsettles : Settles settings P E)
    (hx : x.Ensures settings P' (fun _ => I) (fun error after => I after ∧ E error) U)
    (hleave : ∀ state, I state → P { state with cursor := leave state.cursor })
    (message : String) :
    (do
      let outcome ← x.attempt
      Run.setCursor (leave (← Run.state).cursor)
      Run.conclude message outcome).Ensures settings P' (fun _ => P)
        (fun error after => P after ∧ E error) U :=
  Ensures.bind hx.attempt_unit fun _ state hstate =>
    sustains_conclude hsettles message hstate.2 _ (hleave state hstate.1)

end Run

section

open Run

variable {settings : Settings σ} {P I U : RunState σ → Prop} {E : Error → Prop}

/-- Between two transactions `P` holds; `B` holds where the body begins, and `I` where it
ends. -/
theorem TransactionFilter.sustains_visitAll {body : Run σ Unit} {B : Nat → RunState σ → Prop}
    (hsettles : Settles settings P E)
    (henter : ∀ state index cursor, P state → state.cursor.atTransaction index = .ok cursor →
      B index { state with cursor })
    (houtside : ∀ state index error, P state →
      state.cursor.atTransaction index = .error error → E error)
    (hbody : ∀ index, body.Ensures settings (B index) (fun _ => I)
      (fun error after => I after ∧ E error) U)
    (hleave : ∀ state, I state → P { state with cursor := state.cursor.withoutTransaction })
    (indices : List Nat) : (visitAll body indices).Sustains settings P E U := by
  induction indices with
  | nil => exact sustains_pure ()
  | cons index rest ih =>
      have hvisit := ensures_concluded hsettles (hbody index) hleave
        s!"error processing transaction {index}"
      intro state hstate
      rw [visitAll]
      cases hcursor : state.cursor.atTransaction index with
      | error error => simpa [hcursor] using ⟨hstate, houtside state index error hstate hcursor⟩
      | ok cursor =>
          have hrest := hvisit.bind (fun _ => ih) _ (henter state index cursor hstate hcursor)
          simpa [hcursor, setCursor] using hrest

/-- Between two log entries `P` holds, and `I` where a visit ends. -/
theorem LogEntryFilter.sustains_visitEach {visit : Nat → Run σ Unit}
    (hsettles : Settles settings P E)
    (hvisit : ∀ index, (visit index).Ensures settings P (fun _ => I)
      (fun error after => I after ∧ E error) U)
    (hleave : ∀ state, I state → P { state with cursor := state.cursor.withoutLogEntry })
    (event : String) (indices : List Nat) :
    (visitEach event visit indices).Sustains settings P E U := by
  induction indices with
  | nil => exact sustains_pure ()
  | cons index rest ih =>
      have hconcluded := ensures_concluded hsettles (hvisit index) hleave
        s!"error processing log entry {index} ({event})"
      rw [visitEach]
      simpa only [bind_assoc] using hconcluded.bind fun _ => ih

end

end ChainExtract
