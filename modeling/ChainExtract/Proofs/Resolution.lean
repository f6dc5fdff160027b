import ChainExtract.Library
import Mathlib.Data.List.Induction
import Mathlib.Data.List.Nodup
import Mathlib.Data.List.Perm.Basic

/-! # Resolution of calls

Methods are offered to a library one after the other, and of those with one signature the first
is registered. A call goes to the registered method of its signature, or else to the only one
that accepts it. Which method that is, or why there is none, does not depend on the order of the
registrations.
-/

namespace ChainExtract

theorem ValueType.accepts_refl (type : ValueType) : type.accepts type = true := by
  induction type with
  | list element ih => exact ih
  | _ => rfl

namespace Signature

/-- A method answers calls of its name whose arguments its parameters accept one by one. -/
theorem accepts_iff {method call : Signature} :
    method.accepts call = true ↔ method.name = call.name ∧
      List.Forall₂ (fun expected actual : ValueType => expected.accepts actual = true)
        method.parameters call.parameters := by
  simp only [accepts, Bool.and_eq_true, beq_iff_eq, List.all_eq_true, List.forall₂_iff_zip,
    Prod.forall, and_assoc]

theorem accepts_refl (signature : Signature) : signature.accepts signature = true :=
  accepts_iff.mpr ⟨rfl, List.forall₂_same.mpr fun type _ => type.accepts_refl⟩

end Signature

namespace Library

/-- The library after a method has been offered: one that is refused changes nothing. -/
def offer (library : Library) (method : Method) : Library :=
  match library.add method with
  | .ok extended => extended
  | .error _ => library

/-- The library to which methods have been offered one after the other. -/
def ofOffers (offers : List Method) : Library := offers.foldl offer empty

/-- The method is offered, and none of its signature is offered before it. -/
def IsFirst (offers : List Method) (method : Method) : Prop :=
  ∃ earlier later, offers = earlier ++ method :: later ∧
    ∀ other ∈ earlier, other.signature ≠ method.signature

/-- The failure of registering a method whose signature is taken. -/
def taken (method : Method) : Error :=
  .invalidLibrary s!"method {method.signature.text} is already registered"

/-- What becomes of a method that is offered after others. -/
structure Admits (earlier : List Method) (method : Method) : Prop where
  refused : (∃ other ∈ earlier, other.signature = method.signature) →
    (ofOffers earlier).add method = .error (taken method) ∧
      ofOffers (earlier ++ [method]) = ofOffers earlier
  registered : (∀ other ∈ earlier, other.signature ≠ method.signature) →
    (ofOffers earlier).add method = .ok (ofOffers (earlier ++ [method]))

/-- What a call comes to where the given methods are registered. -/
inductive Resolves (registered : Method → Prop) (call : Signature) : Except Error Method → Prop
  | exact {method : Method} (hmethod : registered method) (hexact : method.signature = call) :
      Resolves registered call (.ok method)
  | only {method : Method} (hinexact : ∀ other, registered other → other.signature ≠ call)
      (honly : ∀ other, registered other ∧ other.signature.accepts call = true ↔
        other = method) :
      Resolves registered call (.ok method)
  | none (hnone : ∀ other, registered other → other.signature.accepts call = false) :
      Resolves registered call (.error (.noSuchMethod call))
  | several {candidates : List Method}
      (hinexact : ∀ other, registered other → other.signature ≠ call)
      (hcandidates : ∀ other, other ∈ candidates ↔
        registered other ∧ other.signature.accepts call = true)
      (hnodup : (candidates.map (·.signature)).Nodup) (hseveral : 2 ≤ candidates.length) :
      Resolves registered call (.error (.ambiguousMethod call (candidates.map (·.signature))))

/-- Answers that are the same but for the order in which candidates are named. -/
inductive Agrees : Except Error Method → Except Error Method → Prop
  | same (answer : Except Error Method) : Agrees answer answer
  | ambiguous {call : Signature} {first second : List Signature} (hperm : first.Perm second) :
      Agrees (.error (.ambiguousMethod call first)) (.error (.ambiguousMethod call second))

section Registration

theorem contains_iff {library : Library} {signature : Signature} :
    library.contains signature = true ↔
      ∃ method ∈ library.methods, method.signature = signature := by
  simp [contains]

theorem add_of_contains {library : Library} {method : Method}
    (hcontains : library.contains method.signature = true) :
    library.add method = .error (taken method) := by
  rw [add, if_pos hcontains, taken]

theorem add_of_not_contains {library : Library} {method : Method}
    (hcontains : library.contains method.signature = false) :
    library.add method = .ok ⟨library.methods ++ [method]⟩ := by
  rw [add, if_neg (by simp [hcontains])]

theorem ofOffers_concat (earlier : List Method) (method : Method) :
    ofOffers (earlier ++ [method]) = (ofOffers earlier).offer method := by
  rw [ofOffers, List.foldl_concat, ← ofOffers]

theorem isFirst_concat {earlier : List Method} {method other : Method} :
    IsFirst (earlier ++ [method]) other ↔ IsFirst earlier other ∨
      (other = method ∧ ∀ before ∈ earlier, before.signature ≠ method.signature) := by
  constructor
  · rintro ⟨before, after, hsplit, hfirst⟩
    rcases List.eq_nil_or_concat after with rfl | ⟨later, last, rfl⟩
    · obtain ⟨rfl, hlast⟩ := List.append_inj' hsplit rfl
      obtain rfl := List.singleton_inj.mp hlast
      exact Or.inr ⟨rfl, hfirst⟩
    · rw [List.concat_eq_append, ← List.cons_append, ← List.append_assoc] at hsplit
      exact Or.inl ⟨before, later, (List.append_inj' hsplit rfl).1, hfirst⟩
  · rintro (⟨before, later, rfl, hfirst⟩ | ⟨rfl, hfirst⟩)
    · exact ⟨before, later ++ [method], by simp, hfirst⟩
    · exact ⟨earlier, [], rfl, hfirst⟩

/-- The signatures that are taken are those that have been offered. -/
theorem contains_ofOffers_iff {offers : List Method} {signature : Signature} :
    (ofOffers offers).contains signature = true ↔
      ∃ method ∈ offers, method.signature = signature := by
  induction offers using List.reverseRecOn generalizing signature with
  | nil => simp [ofOffers, contains, empty]
  | append_singleton earlier method ih =>
      rw [ofOffers_concat, offer]
      cases htaken : (ofOffers earlier).contains method.signature with
      | true =>
          rw [add_of_contains htaken, ih]
          simp only [List.mem_append, List.mem_singleton, or_and_right, exists_or, exists_eq_left]
          constructor
          · exact Or.inl
          · rintro (hearlier | rfl)
            · exact hearlier
            · exact ih.mp htaken
      | false =>
          rw [add_of_not_contains htaken, contains_iff]
          simp only [List.mem_append, List.mem_singleton, or_and_right, exists_or, exists_eq_left,
            ← ih, contains_iff]

/-- A method is refused if its signature has been offered before, and registered otherwise. -/
theorem admits (earlier : List Method) (method : Method) : Admits earlier method where
  refused := by
    intro hbefore
    have hadd := add_of_contains (contains_ofOffers_iff.mpr hbefore)
    refine ⟨hadd, ?_⟩
    rw [ofOffers_concat, offer, hadd]
  registered := by
    intro hnew
    have hcontains : (ofOffers earlier).contains method.signature = false := by
      rw [← Bool.not_eq_true, contains_ofOffers_iff]
      rintro ⟨other, hother, hsame⟩
      exact hnew other hother hsame
    rw [ofOffers_concat, offer, add_of_not_contains hcontains]

theorem mem_methods_ofOffers {offers : List Method} {method : Method} :
    method ∈ (ofOffers offers).methods ↔ IsFirst offers method := by
  induction offers using List.reverseRecOn with
  | nil => simp [ofOffers, empty, IsFirst]
  | append_singleton earlier last ih =>
      rw [isFirst_concat, ← ih]
      by_cases hbefore : ∃ other ∈ earlier, other.signature = last.signature
      · rw [((admits earlier last).refused hbefore).2]
        obtain ⟨other, hother, hsame⟩ := hbefore
        exact ⟨Or.inl, fun h => h.resolve_right fun hlast => hlast.2 other hother hsame⟩
      · have hnew : ∀ other ∈ earlier, other.signature ≠ last.signature :=
          fun other hother hsame => hbefore ⟨other, hother, hsame⟩
        have hcontains : (ofOffers earlier).contains last.signature = false := by
          rwa [← Bool.not_eq_true, contains_ofOffers_iff]
        rw [ofOffers_concat, offer, add_of_not_contains hcontains, List.mem_append,
          List.mem_singleton]
        exact or_congr_right (iff_self_and.mpr fun _ => hnew)

theorem nodup_signatures_ofOffers (offers : List Method) :
    ((ofOffers offers).methods.map (·.signature)).Nodup := by
  induction offers using List.reverseRecOn with
  | nil => simp [ofOffers, empty]
  | append_singleton earlier last ih =>
      rw [ofOffers_concat, offer]
      cases htaken : (ofOffers earlier).contains last.signature with
      | true => rwa [add_of_contains htaken]
      | false =>
          rw [add_of_not_contains htaken, List.map_append, List.nodup_append]
          refine ⟨ih, List.nodup_singleton _, ?_⟩
          rintro _ hold _ hnew rfl
          obtain ⟨method, hmethod, hsame⟩ := List.mem_map.mp hold
          rw [List.map_singleton, List.mem_singleton] at hnew
          have hcontains := contains_iff.mpr ⟨method, hmethod, hsame.trans hnew⟩
          rw [htaken] at hcontains
          cases hcontains

end Registration

section Resolution

/-- The two steps of resolving a call do what is said of the registered methods as a whole. -/
theorem resolves_resolve {library : Library}
    (hnodup : (library.methods.map (·.signature)).Nodup) (call : Signature) :
    Resolves (· ∈ library.methods) call (library.resolve call) := by
  have hmem : ∀ other, other ∈ library.candidates call ↔
      other ∈ library.methods ∧ other.signature.accepts call = true :=
    fun other => List.mem_filter
  -- first by signature, and then by the number of candidates
  unfold resolve
  split
  next method hfound =>
    exact .exact (List.mem_of_find?_eq_some hfound) (by simpa using List.find?_some hfound)
  next hnone =>
    have hinexact : ∀ other ∈ library.methods, other.signature ≠ call := by
      simpa using hnone
    split
    next hempty =>
      refine .none fun other hother => ?_
      have hrefuses : other ∉ library.candidates call := by simp [hempty]
      simpa [hmem, hother] using hrefuses
    next only honly => exact .only hinexact fun other => by simp [← hmem, honly]
    next hnotEmpty hnotOne =>
      refine .several hinexact hmem (hnodup.sublist (List.filter_sublist.map _)) ?_
      rcases hcandidates : library.candidates call with _ | ⟨first, _ | ⟨second, rest⟩⟩
      · exact absurd hcandidates hnotEmpty
      · exact absurd hcandidates (hnotOne first)
      · simp

theorem exists_two_signatures {candidates : List Method}
    (hnodup : (candidates.map (·.signature)).Nodup) (hseveral : 2 ≤ candidates.length) :
    ∃ first ∈ candidates, ∃ second ∈ candidates, first.signature ≠ second.signature := by
  match candidates, hseveral with
  | first :: second :: rest, _ =>
      refine ⟨first, by simp, second, by simp, fun hsame => ?_⟩
      simp [hsame] at hnodup

namespace Resolves

variable {registered : Method → Prop} {call : Signature} {answer : Except Error Method}
  {method : Method}

theorem of_exact
    (hunique : ∀ method other, registered method → registered other →
      method.signature = other.signature → method = other)
    (hanswer : Resolves registered call answer) (hmethod : registered method)
    (hexact : method.signature = call) : answer = .ok method := by
  cases hanswer with
  | exact hother hsame => rw [hunique _ _ hother hmethod (hsame.trans hexact.symm)]
  | only hinexact | several hinexact => exact absurd hexact (hinexact method hmethod)
  | none hnone =>
      have haccepts := hnone method hmethod
      rw [hexact, Signature.accepts_refl] at haccepts
      cases haccepts

theorem of_only (hanswer : Resolves registered call answer)
    (hinexact : ∀ other, registered other → other.signature ≠ call)
    (honly : ∀ other, registered other ∧ other.signature.accepts call = true ↔ other = method) :
    answer = .ok method := by
  cases hanswer with
  | exact hother hsame => exact absurd hsame (hinexact _ hother)
  | only _ hothers => rw [(honly _).mp ((hothers _).mpr rfl)]
  | none hnone =>
      obtain ⟨hmethod, haccepts⟩ := (honly method).mpr rfl
      rw [hnone method hmethod] at haccepts
      cases haccepts
  | @several candidates _ hcandidates hnodup hseveral =>
      obtain ⟨first, hfirst, second, hsecond, hdiffer⟩ := exists_two_signatures hnodup hseveral
      obtain rfl := (honly first).mp ((hcandidates first).mp hfirst)
      obtain rfl := (honly second).mp ((hcandidates second).mp hsecond)
      exact absurd rfl hdiffer

theorem of_none (hanswer : Resolves registered call answer)
    (hnone : ∀ other, registered other → other.signature.accepts call = false) :
    answer = .error (.noSuchMethod call) := by
  have hrefused : ∀ other, ¬(registered other ∧ other.signature.accepts call = true) := by
    rintro other ⟨hother, haccepts⟩
    rw [hnone other hother] at haccepts
    cases haccepts
  cases hanswer with
  | exact hother hsame => exact absurd ⟨hother, hsame ▸ Signature.accepts_refl _⟩ (hrefused _)
  | only _ honly => exact absurd ((honly _).mpr rfl) (hrefused _)
  | none => rfl
  | several _ hcandidates _ hseveral =>
      obtain ⟨first, hfirst⟩ := List.exists_mem_of_length_pos (Nat.lt_of_succ_lt hseveral)
      exact absurd ((hcandidates first).mp hfirst) (hrefused first)

/-- What a call comes to depends on nothing but the registered methods and the call. -/
theorem agrees {first second : Except Error Method}
    (hunique : ∀ method other, registered method → registered other →
      method.signature = other.signature → method = other)
    (hfirst : Resolves registered call first) (hsecond : Resolves registered call second) :
    Agrees first second := by
  cases hsecond with
  | exact hmethod hexact =>
      rw [hfirst.of_exact hunique hmethod hexact]
      exact .same _
  | only hinexact honly =>
      rw [hfirst.of_only hinexact honly]
      exact .same _
  | none hnone =>
      rw [hfirst.of_none hnone]
      exact .same _
  | @several seconds hinexact hseconds hnodup hseveral =>
      have hsecond := Resolves.several hinexact hseconds hnodup hseveral
      cases hfirst with
      | exact hmethod hexact => exact absurd hexact (hinexact _ hmethod)
      | only hinexact honly =>
          rw [hsecond.of_only hinexact honly]
          exact .same _
      | none hnone =>
          rw [hsecond.of_none hnone]
          exact .same _
      | @several firsts _ hfirsts hnodup' =>
          have hperm : firsts.Perm seconds := by
            rw [List.perm_ext_iff_of_nodup (.of_map _ hnodup') (.of_map _ hnodup)]
            exact fun other => (hfirsts other).trans (hseconds other).symm
          exact .ambiguous (hperm.map _)

end Resolves

theorem isFirst_of_perm {offers others : List Method} (hperm : others.Perm offers)
    (hnodup : (offers.map (·.signature)).Nodup) (method : Method) :
    IsFirst others method ↔ IsFirst offers method := by
  have hmem {methods : List Method} (hdistinct : (methods.map (·.signature)).Nodup) :
      IsFirst methods method ↔ method ∈ methods := by
    constructor
    · rintro ⟨earlier, later, rfl, _⟩
      simp
    · intro hmethod
      obtain ⟨earlier, later, rfl⟩ := List.append_of_mem hmethod
      refine ⟨earlier, later, rfl, fun other hother hsame => ?_⟩
      rw [List.map_append, List.nodup_append] at hdistinct
      exact hdistinct.2.2 _ (List.mem_map_of_mem hother) _ (List.mem_map_of_mem (by simp)) hsame
  rw [hmem hnodup, hmem ((hperm.map _).nodup_iff.mpr hnodup), hperm.mem_iff]

/-- A method that is offered is registered unless its signature has been offered before. A call
goes to the registered method of its signature, or else to the only one that accepts it. Libraries
of the same methods answer calls alike, in whatever order the methods came. -/
theorem resolves_of_offers (offers : List Method) :
    (∀ method, Admits offers method) ∧
      (∀ call, Resolves (IsFirst offers) call ((ofOffers offers).resolve call)) ∧
      (∀ others, (∀ method, IsFirst others method ↔ IsFirst offers method) →
        ∀ call, Agrees ((ofOffers others).resolve call) ((ofOffers offers).resolve call)) ∧
      ∀ others : List Method, others.Perm offers → (offers.map (·.signature)).Nodup →
        ∀ call, Agrees ((ofOffers others).resolve call) ((ofOffers offers).resolve call) := by
  have hresolves (methods : List Method) (call : Signature) :
      Resolves (IsFirst methods) call ((ofOffers methods).resolve call) := by
    have hregistered : IsFirst methods = (· ∈ (ofOffers methods).methods) :=
      funext fun _ => propext mem_methods_ofOffers.symm
    rw [hregistered]
    exact resolves_resolve (nodup_signatures_ofOffers methods) call
  have hunique : ∀ method other, IsFirst offers method → IsFirst offers other →
      method.signature = other.signature → method = other := by
    intro method other hmethod hother hsame
    exact List.inj_on_of_nodup_map (nodup_signatures_ofOffers offers)
      (mem_methods_ofOffers.mpr hmethod) (mem_methods_ofOffers.mpr hother) hsame
  have hagrees : ∀ others, (∀ method, IsFirst others method ↔ IsFirst offers method) →
      ∀ call, Agrees ((ofOffers others).resolve call) ((ofOffers offers).resolve call) := by
    intro others hsame call
    have hothers := hresolves others call
    rw [show IsFirst others = IsFirst offers from funext fun method => propext (hsame method)]
      at hothers
    exact hothers.agrees hunique (hresolves offers call)
  exact ⟨admits offers, hresolves offers, hagrees,
    fun others hperm hnodup => hagrees others (isFirst_of_perm hperm hnodup)⟩

/-- Two names with two methods each, of which those of the second accept the same calls. -/
def overloads : List Method :=
  [⟨⟨"show", [.any]⟩, .string, .constant (.str "any")⟩,
    ⟨⟨"show", [.int]⟩, .string, .constant (.str "int")⟩,
    ⟨⟨"pair", [.any, .string]⟩, .string, .constant (.str "left")⟩,
    ⟨⟨"pair", [.string, .any]⟩, .string, .constant (.str "right")⟩]

theorem resolves_of_offers_overloads :
    overloads.reverse.Perm overloads ∧ (overloads.map (·.signature)).Nodup ∧
      (ofOffers overloads).resolve ⟨"pair", [.string, .string]⟩ =
        .error (.ambiguousMethod ⟨"pair", [.string, .string]⟩
          [⟨"pair", [.any, .string]⟩, ⟨"pair", [.string, .any]⟩]) ∧
      (ofOffers overloads.reverse).resolve ⟨"pair", [.string, .string]⟩ =
        .error (.ambiguousMethod ⟨"pair", [.string, .string]⟩
          [⟨"pair", [.string, .any]⟩, ⟨"pair", [.any, .string]⟩]) ∧
      ∀ call, Agrees ((ofOffers overloads.reverse).resolve call)
        ((ofOffers overloads).resolve call) := by
  have hnodup : (overloads.map (·.signature)).Nodup := by decide
  have hperm := overloads.reverse_perm
  exact ⟨hperm, hnodup, rfl, rfl, (resolves_of_offers overloads).2.2.2 _ hperm hnodup⟩

end Resolution

end Library

end ChainExtract
