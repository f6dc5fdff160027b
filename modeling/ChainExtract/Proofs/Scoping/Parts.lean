import ChainExtract.Proofs.Scoping.Filters
import ChainExtract.Proofs.Scoping.Visible

/-! # Parts of a body

What it means for a compiled part of a body to do what its part of the plan does:
from visible variables that agree it leads to visible variables that agree, with
the names of the compilation in between. Other variables may be pinned, which the
part must leave alone.
-/

namespace ChainExtract

variable {σ α β γ δ : Type} {settings : Settings σ}

namespace Compiler

theorem of_bind_ok {x : Compiler α} {f : α → Compiler β} {names after : Names} {result : β}
    (hrun : (x >>= f).run names = .ok (result, after)) :
    ∃ first middle, x.run names = .ok (first, middle) ∧
      (f first).run middle = .ok (result, after) := by
  simp only [StateT.run_bind] at hrun
  cases hx : x.run names with
  | error error =>
      rw [hx] at hrun
      cases hrun
  | ok pair =>
      rw [hx] at hrun
      exact ⟨pair.1, pair.2, rfl, hrun⟩

theorem run_bind_of_ok {x : Compiler α} {f : α → Compiler β} {names middle : Names} {first : α}
    (hx : x.run names = .ok (first, middle)) : (x >>= f).run names = (f first).run middle := by
  rw [StateT.run_bind, hx]
  rfl

theorem of_pure_ok {result final : α} {names after : Names}
    (hrun : (pure result : Compiler α).run names = .ok (final, after)) :
    final = result ∧ after = names := by
  cases hrun
  exact ⟨rfl, rfl⟩

theorem of_pure_pair_ok {first final : α} {second last : β} {names after : Names}
    (hrun : (pure (first, second) : Compiler (α × β)).run names = .ok ((final, last), after)) :
    final = first ∧ last = second ∧ after = names := by
  obtain ⟨hpair, hnames⟩ := of_pure_ok hrun
  obtain ⟨hfirst, hsecond⟩ := Prod.mk.inj hpair
  exact ⟨hfirst, hsecond, hnames⟩

theorem of_lift_ok {x : Except CompileError α} {result : α} {names after : Names}
    (hrun : (StateT.lift x : Compiler α).run names = .ok (result, after)) :
    x = .ok result ∧ after = names := by
  cases x with
  | error error => cases hrun
  | ok found =>
      cases hrun
      exact ⟨rfl, rfl⟩

theorem of_ofExcept_ok {x : Except Error α} {result : α} {names after : Names}
    (hrun : (Compiler.ofExcept x).run names = .ok (result, after)) :
    x = .ok result ∧ after = names := by
  cases x with
  | error error => cases hrun
  | ok found =>
      cases hrun
      exact ⟨rfl, rfl⟩

theorem of_assign_ok {name : String} {type : ValueType} {names after : Names} {storage : String}
    (hrun : (Compiler.assign name type).run names = .ok (storage, after)) :
    storage = (names.assign name type).1 ∧ after = (names.assign name type).2 := by
  have hpair : names.assign name type = (storage, after) := Except.ok.inj hrun
  rw [hpair]
  exact ⟨rfl, rfl⟩

theorem of_declare_ok {name : String} {type : ValueType} {names after : Names} {storage : String}
    (hrun : (Compiler.declare name type).run names = .ok (storage, after)) :
    storage = (names.declare name type).1 ∧ after = (names.declare name type).2 := by
  have hpair : names.declare name type = (storage, after) := Except.ok.inj hrun
  rw [hpair]
  exact ⟨rfl, rfl⟩

theorem of_nested_ok {body : Compiler α} {names after : Names} {result : α}
    (hrun : (Compiler.nested body).run names = .ok (result, after)) :
    ∃ inner, body.run names.enter = .ok (result, inner) ∧ after = inner.leave := by
  obtain ⟨_, _, henter, hrest⟩ := of_bind_ok hrun
  cases henter
  obtain ⟨found, inner, hbody, hend⟩ := of_bind_ok hrest
  obtain ⟨_, _, hleave, hreturn⟩ := of_bind_ok hend
  cases hleave
  obtain ⟨rfl, rfl⟩ := of_pure_ok hreturn
  exact ⟨inner, hbody, rfl⟩

theorem of_requirePlace_bind_ok {instruction required : String} {places : List (Option Scope)}
    {place : Option Scope} {f : Unit → Compiler α} {names after : Names} {result : α}
    (hrun : (requirePlace instruction required places place >>= f).run names =
      .ok (result, after)) : (f ()).run names = .ok (result, after) := by
  obtain ⟨_, middle, hplace, hrest⟩ := of_bind_ok hrun
  unfold requirePlace at hplace
  split at hplace
  · obtain ⟨_, rfl⟩ := of_pure_ok hplace
    exact hrest
  · cases hplace

end Compiler

def Plain (names : List String) : Prop := ∀ name ∈ names, '#' ∉ name.toList

theorem Plain.subset {names fewer : List String} (hplain : Plain names) (hsubset : fewer ⊆ names) :
    Plain fewer :=
  fun name hname => hplain name (hsubset hname)

theorem plain_append {first second : List String} :
    Plain (first ++ second) ↔ Plain first ∧ Plain second := by
  simp only [Plain, List.mem_append]
  exact ⟨fun h =>
      ⟨fun name hname => h name (Or.inl hname), fun name hname => h name (Or.inr hname)⟩,
    fun h name hname => hname.elim (h.1 name) (h.2 name)⟩

theorem plain_map_fst {vars : List (String × ValueType)} :
    Plain (vars.map (·.1)) ↔ ∀ declared ∈ vars, '#' ∉ declared.1.toList := by
  simp only [Plain, List.forall_mem_map]

/-- The visible variables agree, and some others, which are pinned, have given values. -/
structure Holding (names : Names) (pins : List (String × Value)) (store : Store) (frames : Frames) :
    Prop where
  framed : Framed names store frames
  pinned : ∀ pin ∈ pins, store.get? pin.1 = some pin.2

/-- What is left of that when a body has failed: its own frame is about to be discarded. -/
structure Left (names : Names) (pins : List (String × Value)) (store : Store) (frames : Frames) :
    Prop where
  outer : Outer names store frames
  pinned : ∀ pin ∈ pins, store.get? pin.1 = some pin.2

/-- A part of a program does what its part of the plan does in the frames, where `names` are
the visible names before it and `after` those behind it. Variables whose storage names
are not given yet are left alone. -/
structure Evaluates (settings : Settings σ) (names after : Names) (Q : α → β → Prop) (x : Run σ α)
    (y : Run (Scoped σ) β) : Prop where
  advances : names.Advances after
  simulates : ∀ pins : List (String × Value), (∀ pin ∈ pins, ¬ after.Issued pin.1) →
    x.Simulates settings (Holding names pins) (Holding after pins) (Left names pins) Q y

section

variable {names middle after : Names} {Q : α → β → Prop} {Q' : γ → δ → Prop}

theorem Holding.left {pins : List (String × Value)} {store : Store} {frames : Frames}
    (hholding : Holding names pins store frames) : Left names pins store frames :=
  ⟨hholding.framed.outer, hholding.pinned⟩

theorem Left.of_advances (hadvances : names.Advances middle) {pins : List (String × Value)}
    {store : Store} {frames : Frames} (hleft : Left middle pins store frames) :
    Left names pins store frames := by
  refine ⟨?_, hleft.pinned⟩
  have houter := hleft.outer
  unfold Outer at houter ⊢
  rwa [hadvances.tail] at houter

theorem Left.of_subset {pins fewer : List (String × Value)} {store : Store} {frames : Frames}
    (hleft : Left names pins store frames) (hsubset : fewer ⊆ pins) :
    Left names fewer store frames :=
  ⟨hleft.outer, fun pin hpin => hleft.pinned pin (hsubset hpin)⟩

theorem Holding.of_frames_eq (hframes : after.frames = names.frames) {pins : List (String × Value)}
    {store : Store} {frames : Frames} (hholding : Holding names pins store frames) :
    Holding after pins store frames := by
  refine ⟨?_, hholding.pinned⟩
  unfold Framed
  rw [hframes]
  exact hholding.framed

theorem Holding.eraseAll (hsound : names.Sound) {pins : List (String × Value)} {store : Store}
    {frames : Frames} (hholding : Holding names pins store frames) {storages : List String}
    (hunissued : ∀ storage ∈ storages, ¬ names.Issued storage)
    (hapart : ∀ pin ∈ pins, pin.1 ∉ storages) :
    Holding names pins (store.eraseAll storages) frames := by
  refine ⟨hholding.framed.eraseAll hsound hunissued, fun pin hpin => ?_⟩
  rw [store.get?_eraseAll_of_notMem (hapart pin hpin)]
  exact hholding.pinned pin hpin

theorem Left.eraseAll (hsound : names.Sound) {pins : List (String × Value)} {store : Store}
    {frames : Frames} (hleft : Left names pins store frames) {storages : List String}
    (hunissued : ∀ storage ∈ storages, ¬ names.Issued storage)
    (hapart : ∀ pin ∈ pins, pin.1 ∉ storages) :
    Left names pins (store.eraseAll storages) frames := by
  refine ⟨hleft.outer.eraseAll hsound hunissued, fun pin hpin => ?_⟩
  rw [store.get?_eraseAll_of_notMem (hapart pin hpin)]
  exact hleft.pinned pin hpin

theorem Evaluates.bind {x : Run σ α} {y : Run (Scoped σ) β} {f : α → Run σ γ}
    {g : β → Run (Scoped σ) δ} (hxy : Evaluates settings names middle Q x y)
    (hadvances : middle.Advances after)
    (hfg : ∀ a b, Q a b → Evaluates settings middle after Q' (f a) (g b)) :
    Evaluates settings names after Q' (x >>= f) (y >>= g) := by
  refine ⟨hxy.advances.trans hadvances, fun pins hpins => ?_⟩
  -- what is new behind the second part is new behind the first
  have hearlier : ∀ pin ∈ pins, ¬ middle.Issued pin.1 :=
    fun pin hpin hissued => hpins pin hpin (hadvances.issued hissued)
  refine (hxy.simulates pins hearlier).bind fun a b hab => ?_
  exact ((hfg a b hab).simulates pins hpins).weaken (fun _ _ h => h) (fun _ _ h => h)
    fun _ _ h => h.of_advances hxy.advances

theorem Evaluates.imp {x : Run σ α} {y : Run (Scoped σ) β}
    (hxy : Evaluates settings names after Q x y) {R : α → β → Prop}
    (hresult : ∀ a b, Q a b → R a b) : Evaluates settings names after R x y :=
  ⟨hxy.advances, fun pins hpins => (hxy.simulates pins hpins).imp hresult⟩

theorem Evaluates.of_steady (hsound : names.Sound) {x : Run σ α} {y : Run (Scoped σ) β}
    (hsteady : ∀ F, x.Steady settings F Q y) : Evaluates settings names names Q x y :=
  ⟨.refl hsound, fun _ _ => (hsteady _).weaken (fun _ _ h => h) (fun _ _ h => h)
    fun _ _ h => h.left⟩

theorem Evaluates.pure (hsound : names.Sound) {a : α} {b : β} (hresult : Q a b) :
    Evaluates settings names names Q (Pure.pure a) (Pure.pure b) :=
  .of_steady hsound fun _ => Run.simulates_pure hresult

theorem Evaluates.map {x : Run σ α} {y : Run (Scoped σ) β}
    (hxy : Evaluates settings names after Q x y) {f : α → γ} {g : β → δ}
    (hresult : ∀ a b, Q a b → Q' (f a) (g b)) :
    Evaluates settings names after Q' (x >>= fun a => Pure.pure (f a))
      (y >>= fun b => Pure.pure (g b)) :=
  hxy.bind (.refl hxy.advances.sound) fun a b hab => .pure hxy.advances.sound (hresult a b hab)

theorem Evaluates.lookup (hsound : names.Sound) {name : String} {declared : Declared}
    (hfind : names.find? name = some declared) :
    Evaluates settings names names (fun value result => result = (value, declared.type))
      (Run.lookup declared.storage) (do
        match (← Run.frames).find? name with
        | some binding => return (binding.value, binding.type)
        | none => Run.fail (.undefinedVariable name)) := by
  refine ⟨.refl hsound, fun pins _ state framed hrelated => ?_⟩
  obtain ⟨value, hframe, hstored⟩ := hrelated.agree.framed.find?_some hfind
  have hfirst : (Run.lookup declared.storage).run settings state = .ok value state := by
    simp [Run.lookup, Store.get, hstored]
  have hsecond : (Run.frames : Run (Scoped σ) Frames).run settings.scoped framed =
      .ok framed.chain.frames framed := rfl
  rw [hfirst, Run.run_bind, hsecond]
  simp only [hframe]
  exact .ok rfl hrelated

theorem Evaluates.assign (hsound : names.Sound) {name : String} (hname : '#' ∉ name.toList)
    (type : ValueType) (value : Value) :
    Evaluates settings names (names.assign name type).2 Eq
      (Run.assign (names.assign name type).1 value)
      (Run.modifyFrames (·.assign name type value)) := by
  refine ⟨hsound.advances_assign hname type, fun pins hpins state framed hrelated => ?_⟩
  refine .ok rfl ⟨{ hrelated.view with journal := hrelated.view.journal }, ?_, ?_⟩
  · exact hrelated.agree.framed.assign hsound hname type value
  · intro pin hpin
    have hne : (names.assign name type).1 ≠ pin.1 := by
      intro hsame
      exact hpins pin hpin (hsame ▸ hsound.issued_assign hname)
    exact (state.store.get?_set_of_ne hne value).trans (hrelated.agree.pinned pin hpin)

/-- Variables that are not visible are set, and pinned from then on. -/
theorem simulates_assignAll (hsound : names.Sound) {pins fresh : List (String × Value)}
    (hunissued : ∀ new ∈ fresh, ¬ names.Issued new.1) (hnodup : (fresh.map (·.1)).Nodup)
    (hapart : ∀ pin ∈ pins, pin.1 ∉ fresh.map (·.1)) {G H : Store → Frames → Prop}
    {f : Unit → Run σ α} {y : Run (Scoped σ) β}
    (hxy : (f ()).Simulates settings (Holding names (pins ++ fresh)) G H Q y) :
    ((fresh.forM fun (name, value) => Run.assign name value) >>= f).Simulates settings
      (Holding names pins) G H Q y := by
  induction fresh generalizing pins with
  | nil =>
      rw [List.append_nil] at hxy
      exact hxy
  | cons first rest ih =>
      obtain ⟨hfirst, hrest⟩ := List.nodup_cons.mp hnodup
      rw [List.forM, bind_assoc]
      apply Run.Simulates.assign_left (G := Holding names (pins ++ [first]))
      · refine ih (fun new hnew => hunissued new (List.mem_cons_of_mem _ hnew)) hrest ?_ ?_
        · intro pin hpin
          rcases List.mem_append.mp hpin with hold | hnew
          · exact fun hmem => hapart pin hold (List.mem_cons_of_mem _ hmem)
          · rwa [List.mem_singleton.mp hnew]
        · rwa [List.append_assoc]
      · intro store frames hholding
        refine ⟨hholding.framed.set hsound (hunissued first List.mem_cons_self) _, ?_⟩
        intro pin hpin
        rcases List.mem_append.mp hpin with hold | hnew
        · have hne : first.1 ≠ pin.1 := by
            intro hsame
            exact hapart pin hold (hsame ▸ List.mem_cons_self)
          exact (store.get?_set_of_ne hne _).trans (hholding.pinned pin hold)
        · rw [List.mem_singleton.mp hnew]
          exact store.get?_set_self _ _

/-- Variables that are pinned become visible as the first ones of a new frame. -/
theorem Holding.declareAll {vars : List (String × ValueType)} {values : List Value}
    {pins : List (String × Value)} {store : Store} {frames : Frames}
    (hholding : Holding names (pins ++ (names.enter.declareAll vars).1.zip values) store frames)
    (hlength : values.length = vars.length) :
    Holding (names.enter.declareAll vars).2 pins store
      (Frames.declareAll ([] :: frames) (Binding.zip vars values)) := by
  refine ⟨hholding.framed.enter.declareAll hlength ?_, ?_⟩
  · exact fun pin hpin => hholding.pinned pin (List.mem_append_right _ hpin)
  · exact fun pin hpin => hholding.pinned pin (List.mem_append_left _ hpin)

/-- A body whose first variables have been set does what it does in a frame of its own that
begins with them, and leaves nothing of that frame visible. -/
theorem Evaluates.within {vars : List (String × ValueType)} {values : List Value} {inner : Names}
    {x : Run σ α} {y : Run (Scoped σ) α}
    (hxy : Evaluates settings (names.enter.declareAll vars).2 inner Eq x y)
    (hadvances : names.enter.Advances (names.enter.declareAll vars).2)
    (hlength : values.length = vars.length) {pins : List (String × Value)}
    (hpins : ∀ pin ∈ pins, ¬ inner.Issued pin.1) :
    x.Simulates settings (Holding names (pins ++ (names.enter.declareAll vars).1.zip values))
      (Holding names pins) (Holding names pins) Eq (Run.within (Binding.zip vars values) y) := by
  have hdeclared : (names.enter.declareAll vars).2.frames.tail = names.frames := hadvances.tail
  have hinner : inner.frames.tail = names.frames := hxy.advances.tail.trans hdeclared
  apply (hxy.simulates pins hpins).within
  · exact fun _ _ hholding => hholding.declareAll hlength
  · intro store frames hholding
    have houter := hholding.framed.outer
    unfold Outer at houter
    rw [hinner] at houter
    exact ⟨houter, hholding.pinned⟩
  · intro store frames hleft
    have houter := hleft.outer
    unfold Outer at houter
    rw [hdeclared] at houter
    exact ⟨houter, hleft.pinned⟩

/-- What visits items of a body, any number of times. -/
theorem Evaluates.of_body {inner : Names} (hadvances : names.enter.Advances inner)
    {x : Run σ α} {y : Run (Scoped σ) β}
    (hsteady : ∀ pins : List (String × Value), (∀ pin ∈ pins, ¬ inner.Issued pin.1) →
      x.Steady settings (Holding names pins) Q y) :
    Evaluates settings names inner.leave Q x y :=
  ⟨hadvances.leave.1, fun pins hpins => (hsteady pins hpins).weaken (fun _ _ h => h)
    (fun _ _ h => h.of_frames_eq hadvances.leave.2) fun _ _ h => h.left⟩

/-- A body without variables of its own leaves nothing of its frame visible. -/
theorem Evaluates.steady_within (hsound : names.Sound) {inner : Names} {body : Run σ γ}
    {framedBody : Run (Scoped σ) γ}
    (hbody : Evaluates settings names.enter inner Eq body framedBody)
    {pins : List (String × Value)} (hpins : ∀ pin ∈ pins, ¬ inner.Issued pin.1) :
    body.Steady settings (Holding names pins) Eq (Run.within [] framedBody) := by
  have hwithin : body.Simulates settings
      (Holding names (pins ++ (names.enter.declareAll []).1.zip []))
      (Holding names pins) (Holding names pins) Eq (Run.within (Binding.zip [] []) framedBody) :=
    Evaluates.within hbody (.refl hsound.enter) rfl hpins
  rwa [Names.declareAll, List.zip_nil_left, List.append_nil] at hwithin

/-- What visits items of a body without variables of its own. -/
theorem Evaluates.of_filter (hsound : names.Sound) {inner : Names} {body : Run σ γ}
    {framedBody : Run (Scoped σ) γ}
    (hbody : Evaluates settings names.enter inner Eq body framedBody) {x : Run σ α}
    {y : Run (Scoped σ) β}
    (hfilter : ∀ F, body.Steady settings F Eq (Run.within [] framedBody) →
      x.Steady settings F Q y) : Evaluates settings names inner.leave Q x y :=
  .of_body hbody.advances fun _ hpins => hfilter _ (hbody.steady_within hsound hpins)

end

end ChainExtract
