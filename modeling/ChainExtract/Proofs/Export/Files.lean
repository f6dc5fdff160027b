import ChainExtract.Export.Folder
import Mathlib.Tactic.Common

/-! # Files of a folder

A file whose name leads nowhere but into the folder itself is written unless its name is
too long or no name of a file. After several writes each file holds what was written to it
last, and an entry of another file leaves it alone.
-/

namespace ChainExtract.Folder

/-- The name of a file that lies directly in the folder. -/
structure Plain (name : String) : Prop where
  slash : '/' ∉ name.toList
  ne_empty : name ≠ ""
  ne_here : name ≠ "."
  ne_above : name ≠ ".."

/-- What the last of several files with a name holds. -/
def lastContents (files : List (String × String)) (name : String) : Option String :=
  files.reverse.findSome? fun file => if file.1 = name then some file.2 else none

theorem lastContents_append (first second : List (String × String)) (name : String) :
    lastContents (first ++ second) name =
      (lastContents second name).or (lastContents first name) := by
  simp [lastContents, List.findSome?_append]

theorem lastContents_cons (file : String × String) (files : List (String × String))
    (name : String) :
    lastContents (file :: files) name =
      (lastContents files name).or (if file.1 = name then some file.2 else none) := by
  simp [lastContents, List.findSome?_append]

theorem lastContents_flatMap {α : Type} (items : List α) (files : α → List (String × String))
    (name : String) :
    lastContents (items.flatMap files) name =
      items.reverse.findSome? fun item => lastContents (files item) name := by
  induction items with
  | nil => rfl
  | cons item items ih =>
      rw [List.flatMap_cons, lastContents_append, ih, List.reverse_cons, List.findSome?_append]
      simp

theorem mem_of_lastContents {files : List (String × String)} {name contents : String}
    (hlast : lastContents files name = some contents) : (name, contents) ∈ files := by
  obtain ⟨file, hmem, hfile⟩ := List.exists_of_findSome?_eq_some hlast
  split at hfile
  next hname =>
    obtain ⟨path, text⟩ := file
    obtain ⟨rfl, rfl⟩ : path = name ∧ text = contents := ⟨hname, Option.some.inj hfile⟩
    exact List.mem_reverse.mp hmem
  next => cases hfile

theorem lastContents_ne_none {files : List (String × String)} {name contents : String}
    (hmem : (name, contents) ∈ files) : lastContents files name ≠ none := by
  intro hnone
  simpa using List.findSome?_eq_none_iff.mp hnone _ (List.mem_reverse.mpr hmem)

theorem parts_eq_singleton {path : List Char} (hslash : '/' ∉ path) : parts path = [path] := by
  induction path with
  | nil => rfl
  | cons c path ih =>
      obtain ⟨hc, hpath⟩ : '/' ≠ c ∧ '/' ∉ path := by simpa using hslash
      simp [parts, ih hpath, Ne.symm hc]

/-- A plain name leads to the file of that name, if it leads anywhere. -/
theorem place_of_locate {folder : Folder} {name : String} (hplain : Plain name) {place : Place}
    (hlocate : folder.locate name = .ok place) : place = .inside [name] := by
  have hnames : ((parts name.toList).map String.ofList).filter
      (fun part => part != "" && part != ".") = [name] := by
    simp [parts_eq_singleton hplain.slash, hplain.ne_empty, hplain.ne_here]
  have hhead : name.toList.head? ≠ some '/' := fun h => hplain.slash (List.mem_of_head? h)
  simp only [locate, hnames, hhead, ↓reduceIte] at hlocate
  simp only [follow, hplain.ne_above, ↓reduceIte] at hlocate
  split at hlocate
  · cases hlocate
  · split at hlocate
    · cases hlocate
    · cases hlocate
      rfl

variable {folder after : Folder} {name other : String}

/-- A file is written where its name leads, and nothing is written outside of the folder. -/
theorem cases_modify {contents : Option String → String}
    (hmodify : folder.modify name contents = .ok after) :
    (folder.locate name = .ok .outside ∧ after = folder) ∨
      ∃ place, folder.locate name = .ok (.inside place) ∧
        after = { folder with files := folder.files.update place contents } := by
  unfold modify at hmodify
  cases hlocate : folder.locate name with
  | error => simp [hlocate, bind, Except.bind] at hmodify
  | ok place =>
      cases place with
      | outside =>
          simp only [hlocate, bind, Except.bind, pure, Except.pure, Except.ok.injEq] at hmodify
          exact Or.inl ⟨rfl, hmodify.symm⟩
      | inside place =>
          simp only [hlocate, bind, Except.bind, pure, Except.pure] at hmodify
          split at hmodify
          · cases hmodify
          · exact Or.inr ⟨place, rfl, (Except.ok.inj hmodify).symm⟩

/-- Files are written without making sub-directories. -/
theorem directories_modify {contents : Option String → String}
    (hmodify : folder.modify name contents = .ok after) :
    after.directories = folder.directories := by
  obtain ⟨-, rfl⟩ | ⟨place, -, rfl⟩ := cases_modify hmodify <;> rfl

theorem directories_append (folder : Folder) (name text : String) :
    (folder.append name text).directories = folder.directories := by
  unfold append
  split
  next after hmodify => exact directories_modify hmodify
  next => rfl

theorem directories_writeAll (folder : Folder) (files : List (String × String)) :
    (folder.writeAll files).1.directories = folder.directories := by
  induction files generalizing folder with
  | nil => rfl
  | cons file files ih =>
      obtain ⟨path, contents⟩ := file
      rw [writeAll]
      split
      next written hmodify => rw [ih, directories_modify hmodify]
      next => exact ih folder

/-- Writing a file with a plain name changes this file and nothing else. -/
theorem eq_of_modify (hplain : Plain name) {contents : Option String → String}
    (hmodify : folder.modify name contents = .ok after) :
    after = { folder with files := folder.files.update [name] contents } := by
  obtain ⟨houtside, -⟩ | ⟨place, hplace, rfl⟩ := cases_modify hmodify
  · cases place_of_locate hplain houtside
  · cases place_of_locate hplain hplace
    rfl

theorem read?_of_modify (hplain : Plain name) {contents : Option String → String}
    (hmodify : folder.modify name contents = .ok after) :
    after.read? other =
      if name = other then some (contents (folder.read? name)) else folder.read? other := by
  rw [eq_of_modify hplain hmodify]
  by_cases hname : name = other
  · subst hname
    simp [read?, Keyed.get?_update_self]
  · have hpath : [name] ≠ [other] := by simpa using hname
    simp [read?, hname, Keyed.get?_update_of_ne _ hpath]

/-- What is put behind one file leaves the others alone, and makes no sub-directories. -/
theorem read?_append (hplain : Plain name) (hname : name ≠ other) (text : String) :
    (folder.append name text).read? other = folder.read? other := by
  unfold append
  split
  next after hmodify => rw [read?_of_modify hplain hmodify, if_neg hname]
  next => rfl

/-- When all files could be written, each holds what was written to it last, and the others
what they held before. -/
theorem read?_writeAll {files : List (String × String)} (hplain : ∀ file ∈ files, Plain file.1)
    (hwrite : folder.writeAll files = (after, none)) (name : String) :
    after.read? name = (lastContents files name).or (folder.read? name) := by
  induction files generalizing folder with
  | nil =>
      cases hwrite
      rfl
  | cons file files ih =>
      obtain ⟨hfile, hfiles⟩ := List.forall_mem_cons.mp hplain
      obtain ⟨path, contents⟩ := file
      rw [writeAll] at hwrite
      split at hwrite
      next written hmodify =>
        rw [ih hfiles hwrite, lastContents_cons, read?_of_modify hfile hmodify, Option.or_assoc]
        congr 1
        by_cases hname : path = name <;> simp [hname]
      next => cases hwrite

/-- What writing files fails with tells a file that could not be written. -/
theorem unwritten_of_writeAll {files : List (String × String)} {error : Error}
    (hwrite : (folder.writeAll files).2 = some error) :
    ∃ path cause, error = .unwritten path cause := by
  induction files generalizing folder with
  | nil => cases hwrite
  | cons file files ih =>
      rw [writeAll] at hwrite
      split at hwrite
      · exact ih hwrite
      · cases hwrite
        exact ⟨_, _, rfl⟩

end ChainExtract.Folder
