import ChainExtract.Keyed
import Mathlib.Data.List.Basic
import Mathlib.Data.List.Induction

/-! # Grouping in first-seen order

Entries that items have updated one after the other hold a group for each key: the keys stand
in the order in which items first named them, and each group is made of the items of its key.
-/

namespace List

variable {α : Type} [DecidableEq α]

/-- An element that comes again adds nothing to those seen before. -/
theorem eraseDups_concat (items : List α) (item : α) :
    (items ++ [item]).eraseDups =
      if item ∈ items.eraseDups then items.eraseDups else items.eraseDups ++ [item] := by
  rw [eraseDups_append]
  by_cases hitem : item ∈ items <;> simp [removeAll, hitem, eraseDups_cons]

end List

namespace ChainExtract

namespace Keyed

variable {κ ν ι : Type} [DecidableEq κ]

/-- The settings of keys that were not set again, with each key where it was set first. -/
def lastSettings (settings : List (κ × ν)) : Keyed κ ν :=
  (settings.map (·.1)).eraseDups.filterMap fun key =>
    (settings.filter (·.1 = key)).getLast?

/-- Entries are their keys with what is found under them. -/
theorem eq_filterMap_keys {entries : Keyed κ ν} (hnodup : (keys entries).Nodup) :
    entries = (keys entries).filterMap fun key => (get? entries key).map (key, ·) := by
  rw [keys, List.filterMap_map]
  conv_lhs => rw [← List.filterMap_some (l := entries)]
  refine List.filterMap_congr fun entry hentry => ?_
  simp [(mem_iff_get? hnodup).mp hentry]

section

variable (key : ι → κ) (f : ι → Option ν → ν)

theorem keys_foldl_update (items : List ι) :
    keys (items.foldl (fun entries item => update entries (key item) (f item)) []) =
      (items.map key).eraseDups := by
  induction items using List.reverseRecOn with
  | nil => simp [keys]
  | append_singleton items item ih =>
      rw [List.foldl_append, List.foldl_cons, List.foldl_nil, keys_update, ih, List.map_append,
        List.map_singleton, List.eraseDups_concat]

theorem nodup_keys_foldl_update (items : List ι) (entries : Keyed κ ν)
    (hnodup : (keys entries).Nodup) :
    (keys (items.foldl (fun entries item => update entries (key item) (f item))
      entries)).Nodup := by
  induction items generalizing entries with
  | nil => exact hnodup
  | cons item items ih => exact ih _ (nodup_keys_update hnodup _ _)

/-- A key sees the items of that key alone. -/
theorem get?_foldl_update (items : List ι) (entries : Keyed κ ν) (sought : κ) :
    get? (items.foldl (fun entries item => update entries (key item) (f item)) entries) sought =
      (items.filter (key · = sought)).foldl (fun value? item => some (f item value?))
        (get? entries sought) := by
  induction items generalizing entries with
  | nil => simp
  | cons item items ih =>
      rw [List.foldl_cons, ih]
      by_cases hkey : key item = sought
      · subst hkey
        simp [get?_update_self]
      · rw [get?_update_of_ne _ hkey, List.filter_cons_of_neg (by simpa using hkey)]

end

theorem foldl_some_getD (step : ν → ι → ν) (init : ν) (items : List ι) (value? : Option ν) :
    items.foldl (fun value? item => some (step (value?.getD init) item)) value? =
      if items = [] then value? else some (items.foldl step (value?.getD init)) := by
  induction items generalizing value? with
  | nil => simp
  | cons item items ih =>
      rw [List.foldl_cons, ih]
      by_cases hitems : items = [] <;> simp [hitems]

/-- Items that step by step extend the value of their key make one group for each key. -/
theorem foldl_update_getD (key : ι → κ) (step : ν → ι → ν) (init : ν) (items : List ι) :
    items.foldl (fun entries item =>
        update entries (key item) fun value? => step (value?.getD init) item) [] =
      (items.map key).eraseDups.map fun sought =>
        (sought, (items.filter (key · = sought)).foldl step init) := by
  let f (item : ι) (value? : Option ν) := step (value?.getD init) item
  have hnodup := nodup_keys_foldl_update key f items [] List.nodup_nil
  refine (eq_filterMap_keys hnodup).trans ?_
  rw [keys_foldl_update]
  refine List.filterMap_eq_map_iff_forall_eq_some.mpr fun sought hsought => ?_
  have hgroup : items.filter (key · = sought) ≠ [] := by
    obtain ⟨item, hitem, rfl⟩ := List.mem_map.mp (List.mem_eraseDups.mp hsought)
    exact List.ne_nil_of_mem (List.mem_filter.mpr ⟨hitem, by simp⟩)
  rw [get?_foldl_update, foldl_some_getD, if_neg hgroup]
  simp [get?]

omit [DecidableEq κ] in
theorem foldl_some_snd (settings : List (κ × ν)) (value? : Option ν) :
    settings.foldl (fun _ setting => some setting.2) value? =
      (settings.getLast?.map (·.2)).or value? := by
  induction settings generalizing value? with
  | nil => simp
  | cons setting settings ih =>
      rw [List.foldl_cons, ih, List.getLast?_cons]
      cases settings.getLast? <;> simp

/-- Setting keys one after the other leaves the last setting of each. -/
theorem ofList_eq_lastSettings (settings : List (κ × ν)) :
    ofList settings = lastSettings settings := by
  let f (setting : κ × ν) (_ : Option ν) := setting.2
  have hnodup := nodup_keys_foldl_update (·.1) f settings [] List.nodup_nil
  refine (eq_filterMap_keys hnodup).trans ?_
  rw [keys_foldl_update, lastSettings]
  refine List.filterMap_congr fun key _ => ?_
  rw [get?_foldl_update, foldl_some_snd]
  cases hlast : (settings.filter (·.1 = key)).getLast? with
  | none => simp [get?]
  | some setting =>
      obtain ⟨_, hkey⟩ := List.mem_filter.mp (List.mem_of_getLast? hlast)
      obtain rfl : setting.1 = key := of_decide_eq_true hkey
      rfl

end Keyed

end ChainExtract
