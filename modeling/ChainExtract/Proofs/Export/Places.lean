import ChainExtract.Proofs.Export.Files
import ChainExtract.Run.Report

/-! # Where files are written

The place that the name of a file leads to depends on the sub-directories alone, which no file
changes. A file that could be written is still there after others, unless one of them leads to the
same place; and what is exported never takes the place of the error log.
-/

namespace ChainExtract.Folder

variable {folder after : Folder} {name : String} {place : List String}

/-- The name of a file leads to a place in the folder. -/
def LeadsTo (folder : Folder) (name : String) (place : List String) : Prop :=
  folder.locate name = .ok (.inside place)

instance (folder : Folder) (name : String) (place : List String) :
    Decidable (folder.LeadsTo name place) :=
  inferInstanceAs (Decidable (_ = _))

theorem follow_of_directories (hdirectories : after.directories = folder.directories)
    {here names : List String} {found : Place} (hfollow : folder.follow here names = .ok found) :
    after.follow here names = .ok found := by
  induction names generalizing here with
  | nil => exact hfollow
  | cons name rest ih =>
      rw [follow] at hfollow ⊢
      by_cases habove : name = ".."
      · by_cases houtmost : here = []
        · simpa [habove, houtmost] using hfollow
        · simp only [habove, houtmost, ↓reduceIte] at hfollow ⊢
          exact ih hfollow
      · by_cases hlong : 255 < name.utf8ByteSize
        · simp [habove, hlong] at hfollow
        · by_cases hrest : rest = []
          · simpa [habove, hlong, hrest] using hfollow
          · by_cases hthere : here ++ [name] ∈ folder.directories
            · simp only [habove, hlong, hrest, hthere, hdirectories, ↓reduceIte] at hfollow ⊢
              exact ih hfollow
            · simp only [habove, hlong, hrest, hthere, ↓reduceIte] at hfollow
              split at hfollow <;> cases hfollow

theorem LeadsTo.of_directories (hleads : folder.LeadsTo name place)
    (hdirectories : after.directories = folder.directories) : after.LeadsTo name place := by
  simp only [LeadsTo, locate] at hleads ⊢
  split_ifs at hleads ⊢
  · cases hleads
  · exact follow_of_directories hdirectories hleads

/-- What is written to other places leaves a file alone, be it written or not. -/
theorem get?_writeAll_of_not_leadsTo {files : List (String × String)}
    (hother : ∀ file ∈ files, ¬ folder.LeadsTo file.1 place) :
    (folder.writeAll files).1.files.get? place = folder.files.get? place := by
  induction files generalizing folder with
  | nil => rfl
  | cons file files ih =>
      obtain ⟨hfile, hrest⟩ := List.forall_mem_cons.mp hother
      obtain ⟨path, contents⟩ := file
      rw [writeAll]
      split
      next written hwrite =>
        have hdirectories : written.directories = folder.directories := directories_modify hwrite
        rw [ih fun other hmem hleads => hrest other hmem (hleads.of_directories hdirectories.symm)]
        obtain ⟨-, rfl⟩ | ⟨there, hthere, rfl⟩ := cases_modify hwrite
        · rfl
        · have hne : there ≠ place := by
            rintro rfl
            exact hfile hthere
          exact Keyed.get?_update_of_ne _ hne _
      next => exact ih hrest

theorem writeAll_append (folder : Folder) (first second : List (String × String)) :
    folder.writeAll (first ++ second) =
      (((folder.writeAll first).1.writeAll second).1,
        (folder.writeAll first).2.or ((folder.writeAll first).1.writeAll second).2) := by
  induction first generalizing folder with
  | nil => rfl
  | cons file first ih =>
      obtain ⟨path, contents⟩ := file
      rw [List.cons_append, writeAll, writeAll]
      split
      · exact ih _
      · rw [ih]
        rfl

/-- A file that was written is there, unless a later one leads to the same place. -/
theorem get?_writeAll {earlier later : List (String × String)} {text : String}
    (hwrite : (folder.writeAll (earlier ++ (name, text) :: later)).2 = none)
    (hleads : folder.LeadsTo name place) (hlater : ∀ file ∈ later, ¬ folder.LeadsTo file.1 place) :
    (folder.writeAll (earlier ++ (name, text) :: later)).1.files.get? place = some text := by
  rw [writeAll_append] at hwrite ⊢
  have hdirectories := directories_writeAll folder earlier
  generalize (folder.writeAll earlier).1 = middle at hwrite hdirectories ⊢
  obtain ⟨-, hwrite⟩ := Option.or_eq_none_iff.mp hwrite
  rw [writeAll] at hwrite ⊢
  cases hname : middle.write name text with
  | error => simp [hname] at hwrite
  | ok written =>
      have hwritten : written.directories = folder.directories :=
        (directories_modify hname).trans hdirectories
      refine (get?_writeAll_of_not_leadsTo fun file hfile hfound =>
        hlater file hfile (hfound.of_directories hwritten.symm)).trans ?_
      have hplace := hleads.of_directories hdirectories
      obtain ⟨houtside, -⟩ | ⟨there, hthere, rfl⟩ := cases_modify hname
      · cases houtside.symm.trans hplace
      · cases hthere.symm.trans hplace
        exact Keyed.get?_update_self _ _ _

/-! ### The error log -/

theorem exists_parts_append (front : List Char) {ending : List Char} (hending : '/' ∉ ending) :
    ∃ init last, parts (front ++ ending) = init ++ [last ++ ending] := by
  induction front with
  | nil => exact ⟨[], [], parts_eq_singleton hending⟩
  | cons c front ih =>
      obtain ⟨init, last, hparts⟩ := ih
      rw [List.cons_append, parts, hparts]
      by_cases hc : c = '/'
      · exact ⟨[] :: init, last, by simp [hc]⟩
      · cases init with
        | nil => exact ⟨[], c :: last, by simp [hc]⟩
        | cons part init => exact ⟨(c :: part) :: init, last, by simp [hc]⟩

/-- The place of a file has the name of the file at its end. -/
theorem getLast?_of_follow {here names : List String} {final : String} (hfinal : final ≠ "..")
    (hfollow : folder.follow here (names ++ [final]) = .ok (.inside place)) :
    place.getLast? = some final := by
  induction names generalizing here with
  | nil =>
      simp only [List.nil_append, follow, hfinal, ↓reduceIte] at hfollow
      split at hfollow
      · cases hfollow
      · cases hfollow
        simp
  | cons name rest ih =>
      simp only [List.cons_append, follow, List.append_eq_nil_iff, List.cons_ne_self, and_false,
        ↓reduceIte] at hfollow
      split_ifs at hfollow
      · cases hfollow
      · exact ih hfollow
      · exact ih hfollow

/-- A file whose name ends otherwise than that of the error log leads to another place. -/
theorem LeadsTo.ne_errorLog {front ending : List Char} (hslash : '/' ∉ ending)
    (hending : ∀ other ∈ ["", ".", "..", errorLogName], ¬ ending <:+ other.toList)
    (hleads : folder.LeadsTo (String.ofList (front ++ ending)) place) : place ≠ [errorLogName] := by
  obtain ⟨init, last, hparts⟩ := exists_parts_append front hslash
  have hne : ∀ other ∈ ["", ".", "..", errorLogName], String.ofList (last ++ ending) ≠ other := by
    rintro other hother rfl
    exact hending _ hother (by simp)
  simp only [LeadsTo, locate, String.toList_ofList, hparts] at hleads
  split_ifs at hleads
  · cases hleads
  · have hkept : (String.ofList (last ++ ending) != "" && String.ofList (last ++ ending) != ".") =
        true := by
      rw [Bool.and_eq_true, bne_iff_ne, bne_iff_ne]
      exact ⟨hne "" (by simp), hne "." (by simp)⟩
    simp only [List.map_append, List.filter_append, List.map_cons, List.map_nil, List.filter_cons,
      hkept, List.filter_nil, ↓reduceIte] at hleads
    rintro rfl
    have hlast := getLast?_of_follow (hne ".." (by simp)) hleads
    exact hne errorLogName (by simp) (Option.some.inj hlast).symm

theorem get?_append_of_not_leadsTo (hother : ¬ folder.LeadsTo name place) (text : String) :
    (folder.append name text).files.get? place = folder.files.get? place := by
  unfold append
  split
  next after hmodify =>
    obtain ⟨-, rfl⟩ | ⟨there, hthere, rfl⟩ := cases_modify hmodify
    · rfl
    · have hne : there ≠ place := by
        rintro rfl
        exact hother hthere
      exact Keyed.get?_update_of_ne _ hne _
  next => rfl

theorem not_leadsTo_errorLog (hplace : place ≠ [errorLogName]) :
    ¬ folder.LeadsTo errorLogName place := by
  intro hleads
  have hplain : Plain errorLogName := ⟨by decide, by decide, by decide, by decide⟩
  cases place_of_locate hplain hleads
  exact hplace rfl

end ChainExtract.Folder
