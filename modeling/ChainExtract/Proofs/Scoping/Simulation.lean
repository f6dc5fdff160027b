import ChainExtract.Proofs.Journal
import ChainExtract.Proofs.BlockRange.WalkBack
import ChainExtract.Proofs.Scoping.Interpreter

/-! # Runs that keep their variables differently

Two runs simulate each other if they make the same requests, get the same
answers, export and report the same, and end alike. What their variables have to
do with each other is a relation between the store of the one and the frames of
the other; whatever does not touch variables keeps every such relation.
-/

namespace ChainExtract

variable {σ α β γ δ : Type}

/-- All entries of a journal but the variables that were set. -/
def Journal.shared (journal : List JournalEntry) : List JournalEntry :=
  journal.filter fun
    | .assigned _ _ => false
    | _ => true

@[simp] theorem Journal.shared_assigned (name : String) (value : Value)
    (journal : List JournalEntry) : shared (.assigned name value :: journal) = shared journal := rfl

theorem Journal.shared_cons {first second : List JournalEntry}
    (hsame : shared first = shared second)
    (entry : JournalEntry) : shared (entry :: first) = shared (entry :: second) := by
  cases entry with
  | assigned => exact hsame
  | _ => exact congrArg (_ :: ·) hsame

/-- Two states have everything but the variables in common. -/
structure SameView (state : RunState σ) (framed : RunState (Scoped σ)) : Prop where
  chain : framed.chain.chain = state.chain
  closed : framed.closed = state.closed
  cursor : framed.cursor = state.cursor
  sinks : framed.sinks = state.sinks
  folder : framed.folder = state.folder
  journal : Journal.shared framed.journal = Journal.shared state.journal

/-- Two states have everything but the variables in common, and these are related. -/
structure Related (F : Store → Frames → Prop) (state : RunState σ) (framed : RunState (Scoped σ)) :
    Prop where
  view : SameView state framed
  agree : F state.store framed.chain.frames

/-- Two runs have ended alike, in related states. -/
inductive Outcome.Alike (Q : α → β → Prop) (G H : Store → Frames → Prop) :
    Outcome σ α → Outcome (Scoped σ) β → Prop
  | ok {result : α} {other : β} {after : RunState σ} {framed : RunState (Scoped σ)}
      (hresult : Q result other) (hrelated : Related G after framed) :
      Alike Q G H (.ok result after) (.ok other framed)
  | failed (error : Error) {after : RunState σ} {framed : RunState (Scoped σ)}
      (hrelated : Related H after framed) : Alike Q G H (.failed error after) (.failed error framed)
  | unfinished {after : RunState σ} {framed : RunState (Scoped σ)} (hview : SameView after framed) :
      Alike Q G H (.unfinished (s := after)) (.unfinished (s := framed))

theorem Outcome.Alike.imp {Q R : α → β → Prop} {G G' H H' : Store → Frames → Prop}
    {first : Outcome σ α} {second : Outcome (Scoped σ) β} (halike : Alike Q G H first second)
    (hQ : ∀ a b, Q a b → R a b) (hG : ∀ store frames, G store frames → G' store frames)
    (hH : ∀ store frames, H store frames → H' store frames) : Alike R G' H' first second := by
  cases halike with
  | ok hresult hafter => exact .ok (hQ _ _ hresult) ⟨hafter.view, hG _ _ hafter.agree⟩
  | failed error hafter => exact .failed error ⟨hafter.view, hH _ _ hafter.agree⟩
  | unfinished hview => exact .unfinished hview

namespace Run

/-- From related states two runs end alike: with results related by `Q`, and variables
related by `G` after a success and by `H` after a failure. -/
def Simulates (settings : Settings σ) (F G H : Store → Frames → Prop) (Q : α → β → Prop)
    (x : Run σ α) (y : Run (Scoped σ) β) : Prop :=
  ∀ state framed, Related F state framed →
    Outcome.Alike Q G H (x.run settings state) (y.run settings.scoped framed)

variable {settings : Settings σ} {F F' G G' H H' : Store → Frames → Prop}
variable {Q : α → β → Prop} {Q' : γ → δ → Prop}

theorem Simulates.bind {x : Run σ α} {y : Run (Scoped σ) β} {f : α → Run σ γ}
    {g : β → Run (Scoped σ) δ} (hxy : x.Simulates settings F G H Q y)
    (hfg : ∀ a b, Q a b → (f a).Simulates settings G G' H Q' (g b)) :
    (x >>= f).Simulates settings F G' H Q' (y >>= g) := by
  intro state framed hrelated
  have hfirst := hxy state framed hrelated
  rw [run_bind, run_bind]
  -- both first steps end alike, so that both go on or neither does
  generalize x.run settings state = first at hfirst ⊢
  generalize y.run settings.scoped framed = second at hfirst ⊢
  cases hfirst with
  | ok hresult hafter => exact hfg _ _ hresult _ _ hafter
  | failed error hafter => exact .failed error hafter
  | unfinished hview => exact .unfinished hview

/-- A step of the second run alone, which only says more about the result. -/
theorem Simulates.bind_right {x : Run σ α} {y : Run (Scoped σ) β} {g : β → Run (Scoped σ) δ}
    {R : α → δ → Prop} (hxy : x.Simulates settings F G H Q y)
    (hg : ∀ a b, Q a b → (Pure.pure a : Run σ α).Simulates settings G G' H R (g b)) :
    x.Simulates settings F G' H R (y >>= g) := by
  have hbind := hxy.bind hg
  rwa [bind_pure] at hbind

theorem Simulates.weaken {x : Run σ α} {y : Run (Scoped σ) β}
    (hxy : x.Simulates settings F G H Q y) (hF : ∀ store frames, F' store frames → F store frames)
    (hG : ∀ store frames, G store frames → G' store frames)
    (hH : ∀ store frames, H store frames → H' store frames) :
    x.Simulates settings F' G' H' Q y :=
  fun state framed hrelated =>
    (hxy state framed ⟨hrelated.view, hF _ _ hrelated.agree⟩).imp (fun _ _ h => h) hG hH

theorem Simulates.imp {x : Run σ α} {y : Run (Scoped σ) β}
    (hxy : x.Simulates settings F G H Q y) {R : α → β → Prop}
    (hresult : ∀ a b, Q a b → R a b) : x.Simulates settings F G H R y :=
  fun state framed hrelated =>
    (hxy state framed hrelated).imp hresult (fun _ _ h => h) fun _ _ h => h

/-- The outcome of a run is the same for both, if the variables are related either way. -/
theorem Simulates.attempt {x : Run σ α} {y : Run (Scoped σ) α}
    (hxy : x.Simulates settings F G H Eq y) (hH : ∀ store frames, H store frames → G store frames) :
    x.attempt.Simulates settings F G H' Eq y.attempt := by
  intro state framed hrelated
  have hends := hxy state framed hrelated
  rw [run_attempt, run_attempt]
  generalize x.run settings state = first at hends ⊢
  generalize y.run settings.scoped framed = second at hends ⊢
  cases hends with
  | ok hresult hafter => exact .ok (congrArg _ hresult) hafter
  | failed error hafter => exact .ok rfl ⟨hafter.view, hH _ _ hafter.agree⟩
  | unfinished hview => exact .unfinished hview

/-- A frame of its own for the second run alone, which is discarded either way. -/
theorem Simulates.within {bindings : List (String × Binding)} {x : Run σ α} {y : Run (Scoped σ) α}
    (hxy : x.Simulates settings F' G' H' Eq y)
    (hF : ∀ store frames, F store frames → F' store (Frames.declareAll ([] :: frames) bindings))
    (hG : ∀ store frames, G' store frames → G store frames.tail)
    (hH : ∀ store frames, H' store frames → H store frames.tail) :
    x.Simulates settings F G H Eq (Run.within bindings y) := by
  intro state framed hrelated
  have hview := hrelated.view
  have hends := hxy state { framed with chain :=
      { framed.chain with frames := Frames.declareAll ([] :: framed.chain.frames) bindings } }
    ⟨{ hview with chain := hview.chain }, hF _ _ hrelated.agree⟩
  unfold Run.within Run.modifyFrames
  simp only [run_bind, run_modify, run_attempt]
  generalize x.run settings state = first at hends ⊢
  generalize y.run settings.scoped _ = second at hends ⊢
  cases hends with
  | ok hresult hafter =>
      have hagree := hG _ _ hafter.agree
      exact .ok hresult ⟨{ hafter.view with chain := hafter.view.chain }, hagree⟩
  | failed error hafter =>
      have hagree := hH _ _ hafter.agree
      exact .failed error ⟨{ hafter.view with chain := hafter.view.chain }, hagree⟩
  | unfinished hview => exact .unfinished hview

/-- Variables that the first run alone removes however it ends. -/
theorem Simulates.erase {x : Run σ α} {y : Run (Scoped σ) α}
    (hxy : x.Simulates settings F G H Eq y) {storages : List String}
    (hG : ∀ store frames, G store frames → G (store.eraseAll storages) frames)
    (hH : ∀ store frames, H store frames → H (store.eraseAll storages) frames) :
    (do
      let outcome ← x.attempt
      Run.erase storages
      Run.ofExcept outcome : Run σ α).Simulates settings F G H Eq y := by
  intro state framed hrelated
  have hends := hxy state framed hrelated
  simp only [run_bind, run_attempt, Run.erase, run_modify]
  generalize x.run settings state = first at hends ⊢
  generalize y.run settings.scoped framed = second at hends ⊢
  cases hends with
  | ok hresult hafter =>
      exact .ok hresult ⟨{ hafter.view with journal := hafter.view.journal }, hG _ _ hafter.agree⟩
  | failed error hafter =>
      exact .failed error ⟨{ hafter.view with journal := hafter.view.journal }, hH _ _ hafter.agree⟩
  | unfinished hview => exact .unfinished hview

/-- A variable that the first run alone sets. -/
theorem Simulates.assign_left {name : String} {value : Value} {f : Unit → Run σ α}
    {y : Run (Scoped σ) β} (hxy : (f ()).Simulates settings G G' H Q y)
    (hset : ∀ store frames, F store frames → G (store.set name value) frames) :
    (Run.assign name value >>= f).Simulates settings F G' H Q y := by
  intro state framed hrelated
  exact hxy _ framed
    ⟨{ hrelated.view with journal := hrelated.view.journal }, hset _ _ hrelated.agree⟩

theorem simulates_pure {a : α} {b : β} (hresult : Q a b) :
    (Pure.pure a : Run σ α).Simulates settings F F H Q (Pure.pure b) :=
  fun _ _ hrelated => .ok hresult hrelated

theorem simulates_fail (error : Error) (hH : ∀ store frames, F store frames → H store frames) :
    (fail error : Run σ α).Simulates settings F G H Q (fail error) :=
  fun _ _ hrelated => .failed error ⟨hrelated.view, hH _ _ hrelated.agree⟩

abbrev Steady (settings : Settings σ) (F : Store → Frames → Prop) (Q : α → β → Prop)
    (x : Run σ α) (y : Run (Scoped σ) β) : Prop :=
  x.Simulates settings F F F Q y

theorem Steady.attempt {x : Run σ α} {y : Run (Scoped σ) α} (hxy : x.Steady settings F Eq y) :
    x.attempt.Steady settings F Eq y.attempt :=
  Simulates.attempt hxy fun _ _ h => h

theorem steady_fail (error : Error) : (fail error : Run σ α).Steady settings F Q (fail error) :=
  simulates_fail error fun _ _ h => h

theorem steady_giveUp : (giveUp : Run σ α).Steady settings F Q giveUp := 
  fun _ _ hrelated => .unfinished hrelated.view

theorem steady_ofExcept (result : Except Error α) :
    (ofExcept result : Run σ α).Steady settings F Eq (ofExcept result) := by
  cases result with
  | ok result => exact simulates_pure rfl
  | error error => exact steady_fail error

theorem steady_state :
    (Run.state : Run σ (RunState σ)).Steady settings F SameView Run.state :=
  fun _ _ hrelated => .ok hrelated.view hrelated

theorem steady_settings :
    (Run.settings : Run σ (Settings σ)).Steady settings F
      (fun first second => first = settings ∧ second = settings.scoped) Run.settings :=
  fun _ _ hrelated => .ok ⟨rfl, rfl⟩ hrelated

theorem steady_modify {f : RunState σ → RunState σ} {g : RunState (Scoped σ) → RunState (Scoped σ)}
    (hview : ∀ state framed, SameView state framed → SameView (f state) (g framed))
    (hstore : ∀ state, (f state).store = state.store)
    (hframes : ∀ framed, (g framed).chain.frames = framed.chain.frames) :
    (modify f).Steady settings F Eq (modify g) := by
  intro state framed hrelated
  refine .ok rfl ⟨hview state framed hrelated.view, ?_⟩
  rw [hstore, hframes]
  exact hrelated.agree

theorem steady_note (entry : JournalEntry) :
    (note entry : Run σ Unit).Steady settings F Eq (note entry) :=
  steady_modify (fun _ _ hview => { hview with journal := Journal.shared_cons hview.journal entry })
    (fun _ => rfl) fun _ => rfl

theorem steady_setCursor (cursor : Cursor) :
    (setCursor cursor : Run σ Unit).Steady settings F Eq (setCursor cursor) :=
  steady_modify (fun _ _ hview => { hview with cursor := rfl }) (fun _ => rfl) fun _ => rfl

theorem steady_emit (record : Record) :
    (emit record : Run σ Unit).Steady settings F Eq (emit record) := by
  refine (steady_note _).bind fun _ _ _ => steady_modify ?_ (fun _ => rfl) fun _ => rfl
  intro state framed hview
  refine { hview with sinks := ?_ }
  show framed.sinks.map _ = state.sinks.map _
  rw [hview.sinks]

theorem steady_close : (close : Run σ Unit).Steady settings F Eq close :=
  steady_modify (fun _ _ hview => { hview with closed := rfl, cursor := rfl }) (fun _ => rfl)
    fun _ => rfl

theorem steady_finish (extent : Extent) :
    (finish extent : Run σ (Option Error)).Steady settings F Eq (finish extent) := by
  intro state framed hrelated
  have hview := hrelated.view
  simp only [finish]
  rw [hview.sinks, hview.folder]
  exact .ok rfl ⟨{ hview with sinks := rfl, folder := rfl }, hrelated.agree⟩

theorem steady_report (message : String) (error : Error) :
    (report message error : Run σ Unit).Steady settings F Eq (report message error) := by
  refine (steady_note _).bind fun _ _ _ => steady_settings.bind ?_
  rintro _ _ ⟨rfl, rfl⟩
  refine steady_modify ?_ (fun _ => rfl) fun _ => rfl
  intro state framed hview
  refine { hview with folder := ?_ }
  show framed.folder.append _ _ = state.folder.append _ _
  rw [hview.folder]
  rfl

theorem steady_settle (message : String) (error : Error) :
    (settle message error : Run σ Unit).Steady settings F Eq (settle message error) := by
  have hreport : (report message error >>= fun _ => Run.settings >>= fun settings =>
      if settings.abortOnFailure = true then fail (.aborted error) else Pure.pure () :
        Run σ Unit).Steady settings F Eq
      (report message error >>= fun _ => Run.settings >>= fun settings =>
        if settings.abortOnFailure = true then fail (.aborted error) else Pure.pure ()) := by
    refine (steady_report message error).bind fun _ _ _ => steady_settings.bind ?_
    rintro first second ⟨hfirst, hsecond⟩
    rw [hfirst, hsecond, show settings.scoped.abortOnFailure = settings.abortOnFailure from rfl]
    cases settings.abortOnFailure
    · exact simulates_pure rfl
    · exact steady_fail _
  have hfail : (fail error : Run σ Unit).Steady settings F Eq (fail error) := steady_fail error
  unfold settle
  split
  · exact hfail.bind fun _ _ _ => hreport
  · exact hreport

theorem steady_conclude (message : String) (outcome : Except Error Unit) :
    (conclude message outcome : Run σ Unit).Steady settings F Eq (conclude message outcome) := by
  cases outcome with
  | ok => exact simulates_pure rfl
  | error error => exact steady_settle message error

/-- Requests are made on the same state of the client, which leaves the frames alone. -/
theorem steady_request {ask : Client σ → σ → Except Failure α × σ}
    {askScoped : Client (Scoped σ) → Scoped σ → Except Failure α × Scoped σ}
    (hask : ∀ state, askScoped settings.client.scoped state =
      ((ask settings.client state.chain).1, ⟨(ask settings.client state.chain).2, state.frames⟩))
    (entry : Except Failure α → JournalEntry) (words : String) :
    (request ask entry words).Steady settings F Eq (request askScoped entry words) := by
  intro state framed hrelated
  have hview := hrelated.view
  rw [run_request, run_request, hview.closed]
  cases hclosed : state.closed with
  | true => exact .failed _ hrelated
  | false =>
      have hanswer := hask framed.chain
      rw [hview.chain] at hanswer
      rcases hreply : ask settings.client state.chain with ⟨answer, chain⟩
      rw [hreply] at hanswer
      rw [show askScoped settings.scoped.client framed.chain = _ from hanswer]
      have hnext : Related F
          { state with chain, closed := false, journal := entry answer :: state.journal }
          { framed with
            chain := ⟨chain, framed.chain.frames⟩
            closed := false
            journal := entry answer :: framed.journal } :=
        ⟨{ hview with
            chain := rfl
            closed := rfl
            journal := Journal.shared_cons hview.journal _ }, hrelated.agree⟩
      cases answer with
      | ok result => exact .ok rfl hnext
      | error failure => exact .failed _ hnext

end Run

end ChainExtract
