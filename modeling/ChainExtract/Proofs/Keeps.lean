import ChainExtract.Program.Execute
import ChainExtract.Proofs.Journal
import Mathlib.Order.Defs.Unbundled

/-! # What runs keep

A preorder on states that every step of a run keeps relates the state in which
the run begins to the one in which it ends, whether it succeeds, fails or is
given up.
-/

namespace ChainExtract

variable {σ α β : Type}

/-- However it ends, the last state has the property. -/
def Outcome.Ends (P : RunState σ → Prop) : Outcome σ α → Prop
  | .ok _ after | .failed _ after | .unfinished (s := after) => P after

theorem Outcome.Ends.imp {P Q : RunState σ → Prop} {outcome : Outcome σ α}
    (hends : outcome.Ends P) (hlast : ∀ after, P after → Q after) : outcome.Ends Q := by
  cases outcome <;> exact hlast _ hends

/-- Whether a run ends with a result. -/
def Outcome.isOk : Outcome σ α → Bool
  | .ok _ _ => true
  | .failed _ _ | .unfinished => false

theorem Outcome.exists_of_isOk {outcome : Outcome σ α} (hok : outcome.isOk = true) :
    ∃ result after, outcome = .ok result after := by
  cases outcome with
  | ok result after => exact ⟨result, after, rfl⟩
  | failed | unfinished => cases hok

/-- The state in which a run has ended. -/
def Outcome.last : Outcome σ α → RunState σ
  | .ok _ after | .failed _ after | .unfinished (s := after) => after

theorem Outcome.Ends.last {P : RunState σ → Prop} {outcome : Outcome σ α}
    (hends : outcome.Ends P) : P outcome.last := by
  cases outcome <;> exact hends

theorem Outcome.eq_ok_last {outcome : Outcome σ Unit} (hok : outcome.isOk = true) :
    outcome = .ok () outcome.last := by
  cases outcome with
  | ok => rfl
  | failed | unfinished => cases hok

namespace Run

/-- However a run ends, its last state stands in the relation to its first. -/
def Keeps (R : RunState σ → RunState σ → Prop) (settings : Settings σ) (x : Run σ α) : Prop :=
  ∀ state, (x.run settings state).Ends (R state)

section

variable {R : RunState σ → RunState σ → Prop} {settings : Settings σ}

theorem Keeps.bind [IsTrans (RunState σ) R] {x : Run σ α} {f : α → Run σ β}
    (hx : x.Keeps R settings) (hf : ∀ result, (f result).Keeps R settings) :
    (x >>= f).Keeps R settings := by
  intro state
  have hfirst := hx state
  rw [run_bind]
  cases hrun : x.run settings state with
  | ok result middle =>
      rw [hrun] at hfirst
      have hsecond := hf result middle
      simp only
      cases hnext : (f result).run settings middle with
      | ok | failed | unfinished =>
          rw [hnext] at hsecond
          exact IsTrans.trans _ _ _ hfirst hsecond
  | failed | unfinished => rwa [hrun] at hfirst

theorem keeps_pure [Std.Refl R] (result : α) : (Pure.pure result : Run σ α).Keeps R settings :=
  fun state => Std.Refl.refl state

end

/-- From states with a property a run ends with a result of some kind, in such a state. -/
def Succeeds (settings : Settings σ) (P : RunState σ → Prop) (Q : α → Prop) (x : Run σ α) : Prop :=
  ∀ state, P state → ∃ result after, x.run settings state = .ok result after ∧ P after ∧ Q result

section

variable {settings : Settings σ} {P : RunState σ → Prop} {Q : α → Prop}

theorem Succeeds.bind {Q' : β → Prop} {x : Run σ α} {f : α → Run σ β}
    (hx : x.Succeeds settings P Q)
    (hf : ∀ result, Q result → (f result).Succeeds settings P Q') :
    (x >>= f).Succeeds settings P Q' := by
  intro state hstate
  obtain ⟨result, middle, hrun, hmiddle, hresult⟩ := hx state hstate
  obtain ⟨final, after, hnext, hafter, hfinal⟩ := hf result hresult middle hmiddle
  exact ⟨final, after, by rw [run_bind, hrun]; exact hnext, hafter, hfinal⟩

theorem Succeeds.attempt {x : Run σ α} (hx : x.Succeeds settings P fun _ => True) :
    x.attempt.Succeeds settings P fun outcome => ∃ result, outcome = .ok result := by
  intro state hstate
  obtain ⟨result, after, hrun, hafter, _⟩ := hx state hstate
  exact ⟨.ok result, after, by rw [run_attempt, hrun], hafter, result, rfl⟩

theorem succeeds_pure {result : α} (hresult : Q result) :
    (Pure.pure result : Run σ α).Succeeds settings P Q :=
  fun state hstate => ⟨result, state, rfl, hstate, hresult⟩

theorem succeeds_modify {f : RunState σ → RunState σ} (hkeeps : ∀ state, P state → P (f state)) :
    (modify f).Succeeds settings P fun _ => True :=
  fun state hstate => ⟨(), f state, rfl, hkeeps state hstate, trivial⟩

end

/-- The second state has the journal of the first, possibly with more entries. -/
def Extends (earlier later : RunState σ) : Prop := earlier.journal <:+ later.journal

end Run

namespace RunState

variable {earlier middle later : RunState σ}

theorem journal_eq_since (hextends : Run.Extends earlier later) :
    later.journal = (later.since earlier).reverse ++ earlier.journal := by
  obtain ⟨entries, hentries⟩ := hextends
  have hsince : later.since earlier = entries.reverse := since_eq (by simp [hentries])
  rw [hsince, List.reverse_reverse, hentries]

theorem since_append (hfirst : Run.Extends earlier middle) (hsecond : Run.Extends middle later) :
    later.since earlier = middle.since earlier ++ later.since middle := by
  apply since_eq
  rw [journal_eq_since hsecond, journal_eq_since hfirst, List.reverse_append, List.append_assoc]

end RunState

end ChainExtract
