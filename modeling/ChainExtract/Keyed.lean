/-!
# Entries in first-seen order

Finite maps that remember the order in which their keys were first set. A key
that is set again keeps its place.
-/

namespace ChainExtract

/-- Entries with pairwise different keys, in the order in which the keys came. -/
abbrev Keyed (κ ν : Type) := List (κ × ν)

namespace Keyed

variable {κ ν : Type} [DecidableEq κ]

def get? (entries : Keyed κ ν) (key : κ) : Option ν :=
  (entries.find? fun entry => entry.1 == key).map (·.2)

/-- Replaces the value of a key by what `f` makes of it; a new key comes last. -/
def update (entries : Keyed κ ν) (key : κ) (f : Option ν → ν) : Keyed κ ν :=
  match entries with
  | [] => [(key, f none)]
  | entry :: rest =>
    if entry.1 = key then (key, f (some entry.2)) :: rest else entry :: update rest key f

def set (entries : Keyed κ ν) (key : κ) (value : ν) : Keyed κ ν :=
  update entries key fun _ => value

def keys (entries : Keyed κ ν) : List κ := entries.map (·.1)

/-- The entries that result from setting keys one after the other. -/
def ofList (settings : List (κ × ν)) : Keyed κ ν :=
  settings.foldl (fun entries setting => set entries setting.1 setting.2) []

theorem get?_update_self (entries : Keyed κ ν) (key : κ) (f : Option ν → ν) :
    get? (update entries key f) key = some (f (get? entries key)) := by
  induction entries with
  | nil => simp [update, get?]
  | cons entry rest ih =>
    by_cases h : entry.1 = key
    · simp [update, get?, h]
    · simp only [update, h, get?] at ih ⊢
      simpa [List.find?_cons, h] using ih

theorem get?_update_of_ne (entries : Keyed κ ν) {key other : κ} (h : key ≠ other)
    (f : Option ν → ν) : get? (update entries key f) other = get? entries other := by
  induction entries with
  | nil => simp [update, get?, h]
  | cons entry rest ih =>
    by_cases hk : entry.1 = key
    · simp [update, get?, hk, h]
    · by_cases ho : entry.1 = other
      · simp [update, get?, ho, Ne.symm h]
      · simp only [update, hk, get?] at ih ⊢
        simpa [List.find?_cons, ho] using ih

theorem get?_set_eq_some {entries : Keyed κ ν} {key other : κ} {value found : ν}
    (h : get? (set entries key value) other = some found) :
    (other = key ∧ found = value) ∨ (key ≠ other ∧ get? entries other = some found) := by
  by_cases hsame : key = other
  · subst hsame
    rw [set, get?_update_self] at h
    exact Or.inl ⟨rfl, (Option.some.inj h).symm⟩
  · rw [set, get?_update_of_ne _ hsame] at h
    exact Or.inr ⟨hsame, h⟩

/-- Setting a key adds it behind the others unless it is there already. -/
theorem keys_update (entries : Keyed κ ν) (key : κ) (f : Option ν → ν) :
    keys (update entries key f)
      = if key ∈ keys entries then keys entries else keys entries ++ [key] := by
  induction entries with
  | nil => simp [update, keys]
  | cons entry rest ih =>
    by_cases h : entry.1 = key
    · simp [update, keys, h]
    · have h' : key ≠ entry.1 := Ne.symm h
      simp only [keys] at ih
      by_cases hm : key ∈ rest.map (·.1)
      · simp [update, keys, h, h', ih, hm]
      · simp [update, keys, h, h', ih, hm]

theorem nodup_keys_update {entries : Keyed κ ν} (hnodup : (keys entries).Nodup) (key : κ)
    (f : Option ν → ν) : (keys (update entries key f)).Nodup := by
  rw [keys_update]
  split
  next => exact hnodup
  next hnew =>
    refine List.nodup_append.mpr ⟨hnodup, by simp, ?_⟩
    rintro first hfirst second hsecond rfl
    exact hnew (List.mem_singleton.mp hsecond ▸ hfirst)

theorem mem_iff_get? {entries : Keyed κ ν} (hnodup : (keys entries).Nodup) {key : κ} {value : ν} :
    (key, value) ∈ entries ↔ get? entries key = some value := by
  induction entries with
  | nil => simp [get?]
  | cons entry rest ih =>
    obtain ⟨hnew, hrest⟩ := List.nodup_cons.mp hnodup
    by_cases h : entry.1 = key
    · subst h
      have hnot : (entry.1, value) ∉ rest := fun hmem => hnew (List.mem_map.mpr ⟨_, hmem, rfl⟩)
      simp [get?, hnot, Prod.ext_iff, eq_comm]
    · have hne : (key, value) ≠ entry := fun heq => h (heq ▸ rfl)
      simpa [get?, h, hne] using ih hrest

end Keyed

end ChainExtract
