import ChainExtract.Proofs.Scoping.Simulation

/-! # Filters

Filters do the same at both levels as long as what they run for each item does.
-/

namespace ChainExtract

variable {σ α : Type} {settings : Settings σ} {F : Store → Frames → Prop}

namespace Run

theorem steady_latest : (latest : Run σ Int).Steady settings F Eq latest :=
  steady_request (fun _ => rfl) _ _

theorem steady_blockOf (number : Int) :
    (blockOf number : Run σ Block).Steady settings F Eq (blockOf number) :=
  steady_request (fun _ => rfl) _ _

theorem steady_query (question : MemberQuery) :
    (query question : Run σ (List Value)).Steady settings F Eq (query question) := by
  unfold query
  exact steady_request (fun _ => rfl) _ _

theorem steady_waitFor (number : Int) (patience : Nat) :
    (waitFor number patience : Run σ Unit).Steady settings F Eq (waitFor number patience) := by
  induction patience with
  | zero => exact steady_giveUp
  | succ patience ih =>
      apply steady_latest.bind
      rintro head _ rfl
      split
      · exact ih
      · exact simulates_pure rfl

end Run

namespace BlockRange

/-- The definition of `confirm` without the proof that it ends. -/
theorem confirm_eq (window : Window) (number : Int) :
    (confirm window number : Run σ (Block × Window)) = (do
      let block ← Run.blockOf number
      match window.blocks with
      | [] =>
        if window.truncated then Run.fail (.discontinuity number window.capacity)
        else return (block, window.push (number, block.hash))
      | (known, hash) :: _ =>
        if hash = block.parentHash then return (block, window.push (number, block.hash))
        else do
          Run.note (.withdrawn known hash)
          confirm window.pop (number - 1)) := by
  rw [confirm]
  congr 1
  funext block
  split <;> simp_all

theorem steady_confirm (window : Window) (number : Int) :
    (confirm window number : Run σ (Block × Window)).Steady settings F Eq
      (confirm window number) := by
  induction window, number using confirm.induct with
  | case1 window number ih =>
      rw [confirm_eq (σ := σ), confirm_eq (σ := Scoped σ)]
      apply (Run.steady_blockOf number).bind
      rintro block _ rfl
      cases hblocks : window.blocks with
      | nil =>
          simp only
          split
          · exact Run.steady_fail _
          · exact Run.simulates_pure rfl
      | cons known rest =>
          simp only
          split
          · exact Run.simulates_pure rfl
          · exact (Run.steady_note _).bind fun _ _ _ => ih known.1 known.2 rest hblocks

theorem steady_fetch (window : Window) (next : Int) :
    (fetch window next : Run σ _).Steady settings F Eq (fetch window next) := by
  refine Run.Steady.attempt (Run.steady_settings.bind ?_)
  rintro _ _ ⟨rfl, rfl⟩
  exact (Run.steady_waitFor next _).bind fun _ _ _ => steady_confirm window next

variable {body : Run σ Unit} {framedBody : Run (Scoped σ) Unit}

theorem steady_visit (hbody : body.Steady settings F Eq framedBody) (block : Block) :
    (visit body block).Steady settings F Eq (visit framedBody block) := by
  refine (Run.steady_note _).bind fun _ _ _ => (Run.steady_setCursor _).bind fun _ _ _ => ?_
  refine Run.Simulates.bind (Run.Steady.attempt ?_) ?_
  · apply hbody.attempt.bind
    rintro outcome _ rfl
    refine (Run.steady_conclude _ outcome).bind fun _ _ _ => (Run.steady_finish _).bind ?_
    rintro failure? _ rfl
    exact Run.steady_conclude _ _
  · rintro outcome _ rfl
    exact (Run.steady_setCursor _).bind fun _ _ _ => Run.steady_ofExcept outcome

theorem steady_turn (hbody : body.Steady settings F Eq framedBody) (window : Window) (next : Int) :
    (turn body window next).Steady settings F Eq (turn framedBody window next) := by
  apply (steady_fetch window next).bind
  rintro outcome _ rfl
  split
  · exact (steady_visit hbody _).bind fun _ _ _ => Run.simulates_pure rfl
  · exact (Run.steady_report _ _).bind fun _ _ _ => Run.steady_fail _
  · exact (Run.steady_settle _ _).bind fun _ _ _ => Run.simulates_pure rfl

theorem steady_visitFrom (hbody : body.Steady settings F Eq framedBody) (last : Option Int)
    (patience : Nat) (window : Window) (next : Int) :
    (visitFrom body last patience window next).Steady settings F Eq
      (visitFrom framedBody last patience window next) := by
  induction patience generalizing window next with
  | zero =>
      rw [visitFrom, visitFrom]
      split
      · exact Run.simulates_pure rfl
      · exact Run.steady_giveUp
  | succ patience ih =>
      rw [visitFrom, visitFrom]
      split
      · exact Run.simulates_pure rfl
      · apply (steady_turn hbody window next).bind
        rintro follow _ rfl
        exact ih follow.1 follow.2

theorem steady_visitAll (hbody : body.Steady settings F Eq framedBody) (first : Int)
    (last : Option Int) :
    (visitAll body first last).Steady settings F Eq (visitAll framedBody first last) := by
  apply Run.steady_settings.bind
  rintro _ _ ⟨rfl, rfl⟩
  exact steady_visitFrom hbody last _ _ first

end BlockRange

namespace TransactionFilter

variable {body : Run σ Unit} {framedBody : Run (Scoped σ) Unit}

theorem steady_visitAll (hbody : body.Steady settings F Eq framedBody) (indices : List Nat) :
    (visitAll body indices).Steady settings F Eq (visitAll framedBody indices) := by
  induction indices with
  | nil => exact Run.simulates_pure rfl
  | cons index rest ih =>
      refine Run.steady_state.bind fun state framed hview => ?_
      rw [hview.cursor]
      apply (Run.steady_ofExcept _).bind
      rintro cursor _ rfl
      refine (Run.steady_setCursor cursor).bind fun _ _ _ => hbody.attempt.bind ?_
      rintro outcome _ rfl
      refine Run.steady_state.bind fun state framed hview => ?_
      rw [hview.cursor]
      exact (Run.steady_setCursor _).bind fun _ _ _ =>
        (Run.steady_conclude _ outcome).bind fun _ _ _ => ih

theorem steady_run (hbody : body.Steady settings F Eq framedBody)
    (senders recipients : AddressSet) :
    (run senders recipients body).Steady settings F Eq (run senders recipients framedBody) := by
  refine Run.steady_state.bind fun state framed hview => ?_
  rw [hview.cursor]
  split
  · exact Run.steady_fail _
  · exact steady_visitAll hbody _

end TransactionFilter

namespace LogEntryFilter

variable {visit : Nat → Run σ Unit} {framedVisit : Nat → Run (Scoped σ) Unit}

theorem steady_visitEach (hvisit : ∀ index, (visit index).Steady settings F Eq (framedVisit index))
    (event : String) (indices : List Nat) :
    (visitEach event visit indices).Steady settings F Eq (visitEach event framedVisit indices) := by
  induction indices with
  | nil => exact Run.simulates_pure rfl
  | cons index rest ih =>
      apply (hvisit index).attempt.bind
      rintro outcome _ rfl
      refine Run.steady_state.bind fun state framed hview => ?_
      rw [hview.cursor]
      exact (Run.steady_setCursor _).bind fun _ _ _ =>
        (Run.steady_conclude _ outcome).bind fun _ _ _ => ih

theorem steady_visitMatching {event framedEvent : EventDecl} (hname : framedEvent.name = event.name)
    (htopic : framedEvent.topic = event.topic)
    (hvisit : ∀ index, (visit index).Steady settings F Eq (framedVisit index))
    (emitters : AddressSet) :
    (visitMatching event emitters visit).Steady settings F Eq
      (visitMatching framedEvent emitters framedVisit) := by
  have hmatching : matching framedEvent emitters = matching event emitters := by
    funext transaction
    simp only [matching, EventDecl.matchesTopics, htopic]
  refine Run.steady_state.bind fun state framed hview => ?_
  rw [hview.cursor, hname, hmatching]
  split
  · exact Run.steady_fail _
  · exact steady_visitEach hvisit _ _

end LogEntryFilter

namespace ContractFilter

theorem steady_target (address : Value) :
    (target address : Run σ _).Steady settings F Eq (target address) := by
  unfold target
  split
  · refine Run.steady_state.bind fun state framed hview => ?_
    rw [hview.cursor]
    split
    · exact Run.steady_fail _
    · exact Run.simulates_pure rfl
  · exact Run.steady_fail _

theorem steady_ask (target : Address × Int) (member : String) (inputs : List Value)
    (types : List String) :
    (ask target member inputs types : Run σ _).Steady settings F
      (fun values other => other = values ∧ values.length = types.length)
      (ask target member inputs types) := by
  apply (Run.steady_query _).bind
  rintro values _ rfl
  split
  · intro state framed hrelated
    exact .failed _ hrelated
  · exact Run.simulates_pure ⟨rfl, by omega⟩

end ContractFilter

namespace Method

theorem steady_readState (arguments : List Value) :
    (readState arguments : Run σ Value).Steady settings F Eq (readState arguments) := by
  apply (Run.steady_ofExcept _).bind
  rintro contract _ rfl
  apply (Run.steady_ofExcept _).bind
  rintro member _ rfl
  apply (Run.steady_ofExcept _).bind
  rintro inputs _ rfl
  apply (Run.steady_ofExcept _).bind
  rintro types _ rfl
  refine Run.steady_state.bind fun state framed hview => ?_
  rw [hview.cursor]
  split
  · exact Run.steady_fail _
  · apply (Run.steady_query _).bind
    rintro values _ rfl
    exact Run.simulates_pure rfl

theorem steady_invoke (method : Method) (arguments : List Value) :
    (method.invoke arguments : Run σ Value).Steady settings F Eq (method.invoke arguments) := by
  refine (Run.steady_ofExcept _).bind fun _ _ _ => ?_
  unfold perform
  split
  · exact Run.steady_ofExcept _
  · exact steady_readState arguments
  · exact Run.simulates_pure rfl

end Method

theorem steady_runWhen (condition : Value) {body : Run σ Unit} {framedBody : Run (Scoped σ) Unit}
    (hbody : body.Steady settings F Eq framedBody) :
    (runWhen condition body).Steady settings F Eq (runWhen condition framedBody) := by
  unfold runWhen
  split
  · exact hbody
  · exact Run.simulates_pure rfl
  · exact Run.steady_fail _

end ChainExtract
