import ChainExtract.Proofs.Journal

/-! # What runs maintain

A property of states that the steps of a run maintain holds wherever the run
ends, with a result, in a failure or not at all. Results and failures may have
properties of their own, which later steps can rely on.
-/

namespace ChainExtract

variable {σ α β : Type}

/-- However a run has ended, its state has the property `P`; its result has `Q`, its failure `E`. -/
def Outcome.Meets (P : RunState σ → Prop) (Q : α → Prop) (E : Error → Prop) : Outcome σ α → Prop
  | .ok result after => P after ∧ Q result
  | .failed error after => P after ∧ E error
  | .unfinished (s := after) => P after

namespace Run

/-- From states with the property `P` a run comes to such states only, with results that have
`Q` and failures that have `E`. -/
def Maintains (settings : Settings σ) (P : RunState σ → Prop) (Q : α → Prop) (E : Error → Prop)
    (x : Run σ α) : Prop :=
  ∀ state, P state → (x.run settings state).Meets P Q E

variable {settings : Settings σ} {P : RunState σ → Prop} {Q Q' : α → Prop} {R : β → Prop}
variable {E E' : Error → Prop}

theorem Maintains.bind {x : Run σ α} {f : α → Run σ β} (hx : x.Maintains settings P Q E)
    (hf : ∀ result, Q result → (f result).Maintains settings P R E) :
    (x >>= f).Maintains settings P R E := by
  intro state hstate
  have hfirst := hx state hstate
  rw [run_bind]
  cases hrun : x.run settings state with
  | ok result middle =>
      rw [hrun] at hfirst
      exact hf result hfirst.2 middle hfirst.1
  | failed | unfinished =>
      rw [hrun] at hfirst
      exact hfirst

theorem Maintains.imp {x : Run σ α} (hx : x.Maintains settings P Q E)
    (hresult : ∀ result, Q result → Q' result) (herror : ∀ error, E error → E' error) :
    x.Maintains settings P Q' E' := by
  intro state hstate
  have hends := hx state hstate
  cases hrun : x.run settings state with
  | ok result after =>
      rw [hrun] at hends
      exact ⟨hends.1, hresult result hends.2⟩
  | failed error after =>
      rw [hrun] at hends
      exact ⟨hends.1, herror error hends.2⟩
  | unfinished =>
      rw [hrun] at hends
      exact hends

/-- The outcome of a run as a value: a result with `Q`, or a failure with `E`. -/
theorem Maintains.attempt {x : Run σ α} (hx : x.Maintains settings P Q E) :
    x.attempt.Maintains settings P
      (fun outcome => (∀ result, outcome = .ok result → Q result) ∧
        ∀ error, outcome = .error error → E error) E' := by
  intro state hstate
  have hends := hx state hstate
  rw [run_attempt]
  cases hrun : x.run settings state with
  | ok result after =>
      rw [hrun] at hends
      exact ⟨hends.1, fun _ heq => Except.ok.inj heq ▸ hends.2, by simp⟩
  | failed error after =>
      rw [hrun] at hends
      exact ⟨hends.1, by simp, fun _ heq => Except.error.inj heq ▸ hends.2⟩
  | unfinished =>
      rw [hrun] at hends
      exact hends

theorem Maintains.of_ok {x : Run σ α} (hx : x.Maintains settings P Q E) {state after : RunState σ}
    {result : α} (hstate : P state) (hrun : x.run settings state = .ok result after) :
    P after ∧ Q result := by
  have hends := hx state hstate
  rwa [hrun] at hends

/-- A step that follows another begins where that one has ended with a result. -/
theorem of_bind_ok {x : Run σ α} {f : α → Run σ β} {state after : RunState σ} {result : β}
    (hrun : (x >>= f).run settings state = .ok result after) :
    ∃ first middle, x.run settings state = .ok first middle ∧
      (f first).run settings middle = .ok result after := by
  rw [run_bind] at hrun
  cases hfirst : x.run settings state with
  | ok first middle =>
      rw [hfirst] at hrun
      exact ⟨first, middle, rfl, hrun⟩
  | failed | unfinished =>
      rw [hfirst] at hrun
      cases hrun

theorem of_attempt_ok {x : Run σ α} {state after : RunState σ} {result : α}
    (hrun : x.attempt.run settings state = .ok (.ok result) after) :
    x.run settings state = .ok result after := by
  rw [run_attempt] at hrun
  cases hfirst : x.run settings state <;> rw [hfirst] at hrun <;> cases hrun
  rfl

theorem of_ofExcept_ok {outcome : Except Error α} {state after : RunState σ} {result : α}
    (hrun : (ofExcept outcome).run settings state = .ok result after) :
    outcome = .ok result ∧ after = state := by
  cases outcome with
  | ok found =>
      cases hrun
      exact ⟨rfl, rfl⟩
  | error => cases hrun

theorem maintains_pure {result : α} (hresult : Q result) :
    (Pure.pure result : Run σ α).Maintains settings P Q E :=
  fun _ hstate => ⟨hstate, hresult⟩

theorem maintains_fail {error : Error} (herror : E error) :
    (fail error : Run σ α).Maintains settings P Q E :=
  fun _ hstate => ⟨hstate, herror⟩

theorem maintains_giveUp : (giveUp : Run σ α).Maintains settings P Q E :=
  fun _ hstate => hstate

theorem maintains_ofExcept {outcome : Except Error α}
    (hresult : ∀ result, outcome = .ok result → Q result)
    (herror : ∀ error, outcome = .error error → E error) :
    (ofExcept outcome).Maintains settings P Q E := by
  cases outcome with
  | ok result => exact maintains_pure (hresult result rfl)
  | error error => exact maintains_fail (herror error rfl)

theorem maintains_state : (Run.state : Run σ _).Maintains settings P P E :=
  fun _ hstate => ⟨hstate, hstate⟩

theorem maintains_settings :
    (Run.settings : Run σ _).Maintains settings P (fun found => found = settings) E :=
  fun _ hstate => ⟨hstate, rfl⟩

theorem maintains_modify {f : RunState σ → RunState σ} (hkeeps : ∀ state, P state → P (f state)) :
    (modify f).Maintains settings P (fun _ => True) E :=
  fun state hstate => ⟨hkeeps state hstate, trivial⟩

/-- A request maintains a property if noting its answer does. On an open connection it fails
only if the client did. -/
theorem maintains_request {ask : Client σ → σ → Except Failure α × σ}
    {entry : Except Failure α → JournalEntry} {words : String}
    (hnote : ∀ state, P state → P
      { state with
        chain := (ask settings.client state.chain).2
        journal := entry (ask settings.client state.chain).1 :: state.journal })
    (hresult : ∀ state result, P state → (ask settings.client state.chain).1 = .ok result →
      Q result)
    (hclosed : ∀ state, P state → state.closed = true → E .readerClosed)
    (hrefused : ∀ failure, E (.ofFailure words failure)) :
    (request ask entry words).Maintains settings P Q E := by
  intro state hstate
  have hnoted := hnote state hstate
  have hanswered := hresult state
  rw [run_request]
  cases hopen : state.closed with
  | true => exact ⟨hstate, hclosed state hstate hopen⟩
  | false =>
      rw [hopen] at hnoted
      rcases hask : ask settings.client state.chain with ⟨failure | result, chain⟩
      · rw [hask] at hnoted
        exact ⟨hnoted, hrefused failure⟩
      · rw [hask] at hnoted
        exact ⟨hnoted, hanswered result hstate (by rw [hask])⟩

end Run

end ChainExtract
