import ChainExtract.Proofs.Cursor.Restoration
import ChainExtract.Proofs.Typing.Bodies

/-! # Reads of what is set

A plan that compiles reads only variables that have been set and chain items that are being
visited. What a part of a program needs for that is that the visible variables are stored and
that the cursor stands at its place. It leaves the same behind, or fails in a way that is
allowed there.
-/

namespace ChainExtract

variable {σ α β : Type} {settings : Settings σ}

/-- Something was read that is not set, be it that the run stops because of that. -/
def Error.IsUnset : Error → Prop
  | .undefinedVariable _ | .unsetCursor _ _ => True
  | .aborted cause => cause.IsUnset
  | _ => False

/-- Only outside of block ranges something may be read that is not set, by `readContract`. -/
def Error.AllowedAt (place : Option Scope) (error : Error) : Prop :=
  ¬ error.IsUnset ∨ (place = none ∧ error = .unsetCursor "readContract" .block)

/-- A failure that is reported in the words is an allowed one: outside of block ranges only the
end of the program is reported. -/
def Error.Reportable (message : String) (error : Error) : Prop :=
  ¬ error.IsUnset ∨
    (message = "error during program execution" ∧ error = .unsetCursor "readContract" .block)

theorem Error.IsUnsuitable.allowedAt {error : Error} (hunsuitable : error.IsUnsuitable)
    (place : Option Scope) : error.AllowedAt place := by
  cases error <;> first | exact Or.inl (fun h => h) | exact hunsuitable.elim

theorem Error.allowedAt_invalidParameters (place : Option Scope) (subject reason : String) :
    (Error.invalidParameters subject reason).AllowedAt place :=
  Or.inl fun h => h

theorem Error.not_isUnset_of_allowedAt {scope : Scope} {error : Error}
    (hallowed : error.AllowedAt (some scope)) : ¬ error.IsUnset :=
  hallowed.resolve_right fun hnone => by cases hnone.1

namespace Cursor

/-- Whether there is an item of the kind at the cursor. -/
def hasItem (cursor : Cursor) : Scope → Bool
  | .block => cursor.block.isSome
  | .transaction => cursor.transaction.isSome
  | .logEntry => cursor.logEntry.isSome

/-- The cursor is set for the place, and there is an item of each kind that can be read there. -/
structure StandsAt (place : Option Scope) (cursor : Cursor) : Prop where
  set : cursor.SetFor place
  present : ∀ scope, place.any scope.visibleIn = true → cursor.hasItem scope = true

variable {cursor : Cursor}

theorem standsAt_empty : empty.StandsAt none where
  set := by rintro (_ | _ | _) <;> rfl
  present := fun _ hnone => by cases hnone

theorem standsAt_atBlock (block : Block) : (atBlock block).StandsAt (some .block) where
  set := setFor_atBlock block
  present := by rintro (_ | _ | _) hvisible <;> first | rfl | cases hvisible

theorem StandsAt.exists_transaction (hstands : cursor.StandsAt (some .transaction)) :
    ∃ transaction, cursor.transaction = some transaction :=
  Option.isSome_iff_exists.mp (hstands.present .transaction rfl)

theorem StandsAt.atTransaction (hstands : cursor.StandsAt (some .block)) {index : Nat}
    {next : Cursor} (hnext : cursor.atTransaction index = .ok next) :
    next.StandsAt (some .transaction) := by
  refine ⟨hstands.set.atTransaction hnext, ?_⟩
  obtain ⟨block, hblock, hindex, rfl⟩ := of_atTransaction_ok hnext
  rintro (_ | _ | _) hvisible
  · exact hstands.present .block rfl
  · simp [hasItem, transaction, hblock, hindex]
  · cases hvisible

theorem StandsAt.atLogEntry (hstands : cursor.StandsAt (some .transaction)) {index : Nat}
    {next : Cursor} (hnext : cursor.atLogEntry index = .ok next) :
    next.StandsAt (some .logEntry) := by
  refine ⟨hstands.set.atLogEntry hnext, ?_⟩
  obtain ⟨entry, hentry⟩ := exists_logEntry hnext
  obtain ⟨_, _, _, rfl⟩ := of_atLogEntry_ok hnext
  rintro (_ | _ | _) _
  · exact hstands.present .block rfl
  · exact hstands.present .transaction rfl
  · exact Option.isSome_iff_exists.mpr ⟨entry, hentry⟩

end Cursor

/-- Whatever has been reported since the start is reportable. -/
def RunState.ReportsSince (start state : RunState σ) : Prop :=
  ∃ entries, state.journal = entries ++ start.journal ∧
    ∀ message error, .reported message error ∈ entries → error.Reportable message

/-- The cursor is as given, and all reports are reportable. -/
structure Watched (start : RunState σ) (cursor : Cursor) (state : RunState σ) : Prop where
  cursor : state.cursor = cursor
  reports : start.ReportsSince state

/-- The visible variables are stored. -/
def Names.Stored (names : Names) (store : Store) : Prop :=
  ∃ frames, Holding names [] store frames

/-- All that a part may read is set. -/
structure Readable (start : RunState σ) (names : Names) (cursor : Cursor) (state : RunState σ) :
    Prop extends Watched start cursor state where
  stored : names.Stored state.store

theorem RunState.ReportsSince.refl (start : RunState σ) : start.ReportsSince start :=
  ⟨[], rfl, by simp⟩

theorem RunState.ReportsSince.cons {start state after : RunState σ}
    (hreports : start.ReportsSince state) {entry : JournalEntry}
    (hjournal : after.journal = entry :: state.journal)
    (hentry : ∀ message error, entry = .reported message error → error.Reportable message) :
    start.ReportsSince after := by
  obtain ⟨entries, hentries, hreported⟩ := hreports
  refine ⟨entry :: entries, by rw [hjournal, hentries]; rfl, fun message error hmem => ?_⟩
  rcases List.mem_cons.mp hmem with heq | hold
  · exact hentry message error heq.symm
  · exact hreported message error hold

theorem Names.Stored.enter {names : Names} {store : Store} (hstored : names.Stored store) :
    names.enter.Stored store := by
  obtain ⟨frames, hholding⟩ := hstored
  exact ⟨[] :: frames, hholding.framed.enter, by simp⟩

theorem Names.stored_empty (store : Store) : ({} : Names).Stored store :=
  ⟨[[]], .cons (frameAgrees_nil store) .nil, by simp⟩

namespace Run

variable {start : RunState σ} {cursor : Cursor} {place : Option Scope}
variable {names middle after : Names}

theorem operandStable_watched : OperandStable settings (Watched start cursor) where
  assigned := fun _ _ _ h => ⟨h.cursor, h.reports.cons rfl (by simp)⟩
  queried := fun _ _ h => ⟨h.cursor, h.reports.cons rfl (by simp)⟩

theorem expects_watched (hstands : cursor.StandsAt place) :
    Expects (Watched start cursor) (Error.AllowedAt place) where
  unsuitable := fun _ hunsuitable => hunsuitable.allowedAt place
  refused := fun _ _ => Or.inl fun h => h
  closed := Or.inl fun h => h
  unset := by
    intro state hstate hblock
    by_cases hplace : place = none
    · exact Or.inr ⟨hplace, rfl⟩
    · obtain ⟨block, hsome⟩ := hstands.set.exists_block hplace
      rw [hstate.cursor, hsome] at hblock
      cases hblock

/-- A part of a program, at a place of its plan and between the names that are visible before and
behind it, reads what is set. -/
def Reads (settings : Settings σ) (start : RunState σ) (place : Option Scope) (names after : Names)
    (x : Run σ α) : Prop :=
  ∀ cursor : Cursor, cursor.StandsAt place → x.Ensures settings (Readable start names cursor)
    (fun _ => Readable start after cursor)
    (fun error state => Watched start cursor state ∧ error.AllowedAt place) start.ReportsSince

/-- What the part does to the cursor, the reports and by way of failing, without regard to the
variables that it leaves. -/
abbrev Watches (settings : Settings σ) (start : RunState σ) (place : Option Scope) (names : Names)
    (x : Run σ α) : Prop :=
  ∀ cursor : Cursor, cursor.StandsAt place → x.Ensures settings (Readable start names cursor)
    (fun _ => Watched start cursor)
    (fun error state => Watched start cursor state ∧ error.AllowedAt place) start.ReportsSince

theorem Reads.bind {x : Run σ α} {f : α → Run σ β}
    (hx : x.Reads settings start place names middle)
    (hf : ∀ result, (f result).Reads settings start place middle after) :
    (x >>= f).Reads settings start place names after :=
  fun cursor hstands => (hx cursor hstands).bind fun result => hf result cursor hstands

theorem Reads.watches_bind {x : Run σ α} {f : α → Run σ β}
    (hx : x.Reads settings start place names middle)
    (hf : ∀ result, (f result).Watches settings start place middle) :
    (x >>= f).Watches settings start place names :=
  fun cursor hstands => (hx cursor hstands).bind fun result => hf result cursor hstands

theorem Reads.watches {x : Run σ α} (hx : x.Reads settings start place names after) :
    x.Watches settings start place names :=
  fun cursor hstands => (hx cursor hstands).imp (fun _ h => h) (fun _ _ h => h.toWatched)
    (fun _ _ h => h) fun _ h => h

theorem watches_of_sustains {x : Run σ α}
    (hx : ∀ cursor : Cursor, cursor.StandsAt place →
      x.Sustains settings (Watched start cursor) (Error.AllowedAt place) start.ReportsSince) :
    x.Watches settings start place names :=
  fun cursor hstands => Ensures.imp (hx cursor hstands) (fun _ h => h.toWatched) (fun _ _ h => h)
    (fun _ _ h => h) fun _ h => h

/-- What two runs that simulate each other say about the store of the first one. -/
theorem Simulates.ensures {F G H : Store → Frames → Prop} {Q : α → β → Prop} {x : Run σ α}
    {y : Run (Scoped σ) β} (hxy : x.Simulates settings F G H Q y) :
    x.Ensures settings (fun state => ∃ frames, F state.store frames)
      (fun _ after => ∃ frames, G after.store frames)
      (fun _ after => ∃ frames, H after.store frames) fun _ => True := by
  rintro state ⟨frames, hframes⟩
  have hends := hxy state { state.scoped with chain := ⟨state.chain, frames⟩ }
    ⟨⟨rfl, rfl, rfl, rfl, rfl, rfl⟩, hframes⟩
  generalize x.run settings state = first at hends ⊢
  generalize y.run _ _ = second at hends
  cases hends with
  | ok _ hafter => exact ⟨_, hafter.agree⟩
  | failed _ hafter => exact ⟨_, hafter.agree⟩
  | unfinished => trivial

/-- The variables that are visible behind a part are stored if the part does in the store what
another run does in frames. -/
theorem Watches.reads {x : Run σ α} (hx : x.Watches settings start place names)
    {H : Store → Frames → Prop} {Q : α → β → Prop} {y : Run (Scoped σ) β}
    (hxy : x.Simulates settings (Holding names []) (Holding after []) H Q y) :
    x.Reads settings start place names after := by
  intro cursor hstands
  refine ((hx cursor hstands).and hxy.ensures).imp (fun _ h => ⟨h, h.stored⟩) ?_ ?_ ?_
  · exact fun _ _ h => ⟨h.1, h.2⟩
  · exact fun _ _ h => h.1
  · exact fun _ h => h.1

/-- A body in a frame of its own leaves the names around it stored, however it ends. -/
theorem Reads.sustains_body {body : Run σ Unit} {framedBody : Run (Scoped σ) Unit}
    (hbody : body.Reads settings start place names.enter after)
    (hsteady : body.Steady settings (Holding names []) Eq framedBody)
    (hstands : cursor.StandsAt place) :
    body.Sustains settings (Readable start names cursor) (Error.AllowedAt place)
      start.ReportsSince := by
  refine ((hbody.watches cursor hstands).and hsteady.ensures).imp ?_ ?_ ?_ ?_
  · exact fun _ h => ⟨⟨h.toWatched, h.stored.enter⟩, h.stored⟩
  · exact fun _ _ h => ⟨h.1, h.2⟩
  · exact fun _ _ h => ⟨⟨h.1.1, h.2⟩, h.1.2⟩
  · exact fun _ h => h.1

theorem reads_pure (result : α) :
    (Pure.pure result : Run σ α).Reads settings start place names names :=
  fun _ _ _ hstate => hstate

theorem reads_fail {error : Error} (herror : error.AllowedAt place) :
    (fail error : Run σ α).Reads settings start place names after :=
  fun _ _ _ hstate => ⟨hstate.toWatched, herror⟩

theorem reads_ofExcept {outcome : Except Error α}
    (houtcome : FailsOnly Error.IsUnsuitable outcome) :
    (ofExcept outcome).Reads settings start place names names := by
  cases outcome with
  | ok result => exact reads_pure result
  | error error => exact reads_fail ((houtcome error rfl).allowedAt place)

end Run

theorem Evaluates.reads {start : RunState σ} {place : Option Scope} {names after : Names}
    {Q : α → β → Prop} {x : Run σ α} {y : Run (Scoped σ) β}
    (hxy : Evaluates settings names after Q x y)
    (hx : x.Watches settings start place names) : x.Reads settings start place names after :=
  hx.reads (hxy.simulates [] (by simp))

end ChainExtract
