import ChainExtract.Proofs.Documents.Texts
import Mathlib.Data.List.Forall2

/-! # JSON documents

A list or an object without faults is settled by its closing bracket. What stands behind it in the
text has no effect on what is read.
-/

namespace ChainExtract

namespace JsonTree

variable {α β : Type}

/-- The items of a list, or what stands under the names of an object. -/
def parts : JsonTree → List JsonTree
  | list items _ => items
  | record members _ => members.map (·.2)
  | _ => []

@[elab_as_elim]
theorem induction_parts {motive : JsonTree → Prop}
    (step : ∀ tree, (∀ part ∈ tree.parts, motive part) → motive tree) (tree : JsonTree) :
    motive tree :=
  JsonTree.rec (motive_2 := fun items => ∀ item ∈ items, motive item)
    (motive_3 := fun members => ∀ member ∈ members, motive member.2)
    (motive_4 := fun member => motive member.2)
    (fun _ => step _ (by simp [parts])) (fun _ _ hitems => step _ hitems)
    (fun _ _ hmembers => step _ (List.forall_mem_map.mpr hmembers))
    (fun _ _ => step _ (by simp [parts])) (fun _ _ => step _ (by simp [parts]))
    (fun _ hnil => absurd hnil List.not_mem_nil)
    (fun _ _ hfirst hrest => List.forall_mem_cons.mpr ⟨hfirst, hrest⟩)
    (fun _ hnil => absurd hnil List.not_mem_nil)
    (fun _ _ hfirst hrest => List.forall_mem_cons.mpr ⟨hfirst, hrest⟩) (fun _ _ htree => htree) tree

theorem itemValues_eq_ok_iff {items : List JsonTree} {values : List JsonValue} :
    itemValues items = .ok values ↔
      List.Forall₂ (fun item value => item.value = .ok value) items values := by
  induction items generalizing values with
  | nil => exact ⟨fun h => by cases h; exact .nil, fun h => by cases h; rfl⟩
  | cons item items ih =>
      rw [List.forall₂_cons_left_iff]
      constructor
      · intro hvalues
        obtain ⟨first, hfirst, hothers⟩ := exists_of_bind_ok hvalues
        obtain ⟨later, hlater, hreturn⟩ := exists_of_bind_ok hothers
        cases hreturn
        exact ⟨first, later, hfirst, ih.mp hlater, rfl⟩
      · rintro ⟨first, later, hfirst, hlater, rfl⟩
        rw [itemValues, hfirst, ih.mpr hlater]
        rfl

theorem memberValues_eq_ok_iff {members : List (String × JsonTree)}
    {values : List (String × JsonValue)} :
    memberValues members = .ok values ↔
      List.Forall₂ (fun member value => member.1 = value.1 ∧ member.2.value = .ok value.2)
        members values := by
  induction members generalizing values with
  | nil => exact ⟨fun h => by cases h; exact .nil, fun h => by cases h; rfl⟩
  | cons member members ih =>
      rw [List.forall₂_cons_left_iff]
      constructor
      · intro hvalues
        obtain ⟨first, hfirst, hothers⟩ := exists_of_bind_ok hvalues
        obtain ⟨later, hlater, hreturn⟩ := exists_of_bind_ok hothers
        cases hreturn
        exact ⟨(member.1, first), later, ⟨rfl, hfirst⟩, ih.mp hlater, rfl⟩
      · rintro ⟨⟨name, first⟩, later, ⟨rfl, hfirst⟩, hlater, rfl⟩
        rw [memberValues, hfirst, ih.mpr hlater]
        rfl

theorem value_list_eq_ok_iff {items : List JsonTree} {ending : JsonEnding} {json : JsonValue} :
    (list items ending).value = .ok json ↔ ending = .closed ∧ ∃ values, json = .list values ∧
      List.Forall₂ (fun item value => item.value = .ok value) items values := by
  constructor
  · intro hvalue
    obtain ⟨values, hvalues, hending⟩ := exists_of_bind_ok hvalue
    cases ending <;> cases hending
    exact ⟨rfl, values, rfl, itemValues_eq_ok_iff.mp hvalues⟩
  · rintro ⟨rfl, values, rfl, hvalues⟩
    rw [value, itemValues_eq_ok_iff.mpr hvalues]
    rfl

theorem value_record_eq_ok_iff {members : List (String × JsonTree)} {ending : JsonEnding}
    {json : JsonValue} :
    (record members ending).value = .ok json ↔ ending = .closed ∧ ∃ values, json = .record values ∧
      List.Forall₂ (fun member value => member.1 = value.1 ∧ member.2.value = .ok value.2)
        members values := by
  constructor
  · intro hvalue
    obtain ⟨values, hvalues, hending⟩ := exists_of_bind_ok hvalue
    cases ending <;> cases hending
    exact ⟨rfl, values, rfl, memberValues_eq_ok_iff.mp hvalues⟩
  · rintro ⟨rfl, values, rfl, hvalues⟩
    rw [value, memberValues_eq_ok_iff.mpr hvalues]
    rfl

/-- A tree without a fault. -/
def Whole (tree : JsonTree) : Prop := ∃ json, tree.value = .ok json

theorem exists_forall₂_iff {R : α → β → Prop} {as : List α} :
    (∃ bs, List.Forall₂ R as bs) ↔ ∀ a ∈ as, ∃ b, R a b := by
  induction as with
  | nil => simp
  | cons a as ih =>
      rw [List.forall_mem_cons, ← ih]
      constructor
      · rintro ⟨_, hfirst | hlater⟩
        exact ⟨⟨_, by assumption⟩, _, by assumption⟩
      · rintro ⟨⟨b, hb⟩, bs, hbs⟩
        exact ⟨b :: bs, .cons hb hbs⟩

theorem whole_list_iff {items : List JsonTree} {ending : JsonEnding} :
    (list items ending).Whole ↔ ending = .closed ∧ ∀ item ∈ items, item.Whole := by
  simp only [Whole, value_list_eq_ok_iff, ← exists_forall₂_iff]
  constructor
  · rintro ⟨_, hclosed, values, _, hvalues⟩
    exact ⟨hclosed, values, hvalues⟩
  · rintro ⟨hclosed, values, hvalues⟩
    exact ⟨_, hclosed, values, rfl, hvalues⟩

theorem whole_record_iff {members : List (String × JsonTree)} {ending : JsonEnding} :
    (record members ending).Whole ↔ ending = .closed ∧ ∀ member ∈ members, member.2.Whole := by
  have hmember (member : String × JsonTree) : member.2.Whole ↔
      ∃ value : String × JsonValue, member.1 = value.1 ∧ member.2.value = .ok value.2 :=
    ⟨fun ⟨json, hjson⟩ => ⟨(member.1, json), rfl, hjson⟩, fun ⟨value, _, hjson⟩ => ⟨_, hjson⟩⟩
  simp only [hmember, ← exists_forall₂_iff]
  simp only [Whole, value_record_eq_ok_iff]
  constructor
  · rintro ⟨_, hclosed, values, _, hvalues⟩
    exact ⟨hclosed, values, hvalues⟩
  · rintro ⟨hclosed, values, hvalues⟩
    exact ⟨_, hclosed, values, rfl, hvalues⟩

/-- The reader takes a tree without faults from the beginning of any text that goes on with the same
character. -/
def Settles (read : List Char → JsonTree × List Char) : Prop :=
  ∀ (cs : List Char) (tree : JsonTree) (rest : List Char), read cs = (tree, rest) → tree.Whole →
    ∃ taken, cs = taken ++ rest ∧
      ∀ other, other.head? = rest.head? → read (taken ++ other) = (tree, other)

/-- What is read of a value without parts. -/
def leaf (bare : Bool) : Except JsonFault (JsonScalar × List Char) → JsonTree × List Char
  | .ok (value, rest) => (scalar value, rest)
  | .error fault => (broken fault bare, [])

theorem eq_ok_of_leaf {bare : Bool} {result : Except JsonFault (JsonScalar × List Char)}
    {tree : JsonTree} {rest : List Char} (hleaf : leaf bare result = (tree, rest))
    (hwhole : tree.Whole) : ∃ value, tree = scalar value ∧ result = .ok (value, rest) := by
  cases result with
  | ok result =>
      cases hleaf
      exact ⟨_, rfl, rfl⟩
  | error fault =>
      cases hleaf
      obtain ⟨_, hvalue⟩ := hwhole
      cases hvalue

theorem map_eq_bind {ε : Type} (x : Except ε α) (f : α → β) :
    x.map f = x >>= fun a => .ok (f a) := by
  cases x <;> rfl

/-- How a value without parts is read is decided by its first character. -/
theorem exists_readScalar_cons (c : Char) : ∃ bare read, LooksOneAhead read ∧
    ∀ cs, readScalar (c :: cs) = leaf bare (read (c :: cs)) := by
  have hnamed (value : JsonScalar) (name : List Char) :
      LooksOneAhead (behindFirst fun cs => (word name cs).map fun rest => (value, rest)) := by
    simp only [map_eq_bind]
    exact (looksOneAhead_word_bind _ (.ok value)).behindFirst
  by_cases hquote : c = '"'
  · subst hquote
    refine ⟨false, behindFirst fun cs => (string cs).map (Prod.map JsonScalar.string id), ?_,
      fun _ => ?_⟩
    · simp only [map_eq_bind]
      exact (looksOneAhead_string.bind fun s => .ok (JsonScalar.string s)).behindFirst
    · rfl
  by_cases hnull : c = 'n'
  · subst hnull
    exact ⟨true, _, hnamed .null "ull".toList, fun _ => rfl⟩
  by_cases htrue : c = 't'
  · subst htrue
    exact ⟨true, _, hnamed (.bool true) "rue".toList, fun _ => rfl⟩
  by_cases hfalse : c = 'f'
  · subst hfalse
    exact ⟨true, _, hnamed (.bool false) "alse".toList, fun _ => rfl⟩
  by_cases hminus : c = '-'
  · subst hminus
    exact ⟨true, _, (JsonNumber.looksOneAhead_unsigned true).behindFirst, fun _ => rfl⟩
  -- all other characters begin a number or nothing
  have hnumber (cs : List Char) : readScalar (c :: cs) =
      if c.isDigit then leaf true (JsonNumber.unsigned false (c :: cs))
      else leaf true (.error .malformed) := by
    unfold readScalar
    dsimp only
    split <;> first | contradiction | rfl
  by_cases hdigit : c.isDigit
  · exact ⟨true, _, JsonNumber.looksOneAhead_unsigned false, fun cs => by
      rw [hnumber, if_pos hdigit]⟩
  · exact ⟨true, _, .error .malformed, fun cs => by rw [hnumber, if_neg hdigit]⟩

/-- The tree has no parts. -/
def IsScalar : JsonTree → Prop
  | scalar _ => True
  | _ => False

theorem settles_readScalar {cs rest : List Char} {tree : JsonTree}
    (hread : readScalar cs = (tree, rest)) (hwhole : tree.Whole) :
    tree.IsScalar ∧ ∃ taken, cs = taken ++ rest ∧
      ∀ other, other.head? = rest.head? → readScalar (taken ++ other) = (tree, other) := by
  rcases cs with _ | ⟨c, cs⟩
  · cases hread
    obtain ⟨_, hvalue⟩ := hwhole
    cases hvalue
  · obtain ⟨bare, reader, hreader, hscalar⟩ := exists_readScalar_cons c
    rw [hscalar] at hread
    obtain ⟨value, rfl, hok⟩ := eq_ok_of_leaf hread hwhole
    obtain ⟨taken, htext, htaken⟩ := hreader _ _ _ hok
    refine ⟨trivial, taken, htext, fun other hother => ?_⟩
    have hhead := head?_append_congr taken hother
    rw [← htext] at hhead
    obtain ⟨after, hafter⟩ := List.head?_eq_some_iff.mp hhead
    rw [hafter, hscalar, ← hafter, htaken other hother]
    rfl

theorem skipBlanks_append {blanks rest : List Char} (hblank : ∀ c ∈ blanks, isBlank c = true)
    (hrest : ∀ c ∈ rest.head?, isBlank c = false) : skipBlanks (blanks ++ rest) = rest := by
  rw [skipBlanks, List.dropWhile_append_of_pos hblank]
  cases rest with
  | nil => rfl
  | cons c rest => simp [hrest c rfl]

/-- A text is blanks followed by what is left when they are skipped. -/
theorem exists_blanks {cs rest : List Char} (hskip : skipBlanks cs = rest) :
    (∀ c ∈ rest.head?, isBlank c = false) ∧
      ∃ blanks, (∀ c ∈ blanks, isBlank c = true) ∧ cs = blanks ++ rest := by
  subst hskip
  refine ⟨fun c hc => ?_, cs.takeWhile isBlank, fun c hc => List.mem_takeWhile_imp hc,
    List.takeWhile_append_dropWhile.symm⟩
  have hnot := List.head?_dropWhile_not isBlank cs
  rw [skipBlanks, Option.mem_def] at hc
  rw [hc] at hnot
  simpa using hnot

section Entries

variable {value : List Char → JsonTree × List Char} {cs behind after next rest : List Char}
variable {item : JsonTree} {c : Char} {ending : JsonEnding} {fuel : Nat}

theorem items_of_last (hvalue : value cs = (item, behind))
    (hlast : skipBlanks behind = ']' :: rest) :
    items value (fuel + 1) cs = ([item], .closed, rest) := by
  simp [items, hvalue, hlast]

theorem items_of_further {further : List JsonTree} (hvalue : value cs = (item, behind))
    (hcomma : skipBlanks behind = ',' :: after) (hnext : skipBlanks after = c :: next)
    (hc : c ≠ ']') (hfurther : items value fuel (c :: next) = (further, ending, rest)) :
    items value (fuel + 1) cs = (item :: further, ending, rest) := by
  rw [items, hvalue]
  dsimp only
  rw [hcomma]
  have hbracket : ',' ≠ ']' := by decide
  simp only [hnext, hbracket, if_false, ne_eq, not_true]
  split
  next => contradiction
  next heq => exact absurd (List.cons.inj heq).1 hc
  next => rw [hfurther]

/-- Items are closed behind the last, and otherwise go on behind a comma. -/
theorem items_closed {result : List JsonTree}
    (hread : items value (fuel + 1) cs = (result, .closed, rest)) :
    ∃ item behind, value cs = (item, behind) ∧
      ((skipBlanks behind = ']' :: rest ∧ result = [item]) ∨
        ∃ after c next further, skipBlanks behind = ',' :: after ∧ skipBlanks after = c :: next ∧
          c ≠ ']' ∧ items value fuel (c :: next) = (further, .closed, rest) ∧
          result = item :: further) := by
  cases hvalue : value cs with
  | mk item behind =>
      refine ⟨item, behind, rfl, ?_⟩
      rw [items, hvalue] at hread
      dsimp only at hread
      split at hread
      next => cases hread
      next c after hafter =>
        split at hread
        next hbracket =>
          subst hbracket
          cases hread
          exact .inl ⟨hafter, rfl⟩
        split at hread
        next => cases hread
        next hcomma =>
          obtain rfl := not_not.mp hcomma
          split at hread
          next => cases hread
          next => cases hread
          next hsome hbracket =>
            obtain ⟨c, next, hnext⟩ := List.exists_cons_of_ne_nil hsome
            rw [hnext] at hread
            rcases hfurther : items value fuel (c :: next) with ⟨further, ending, left⟩
            rw [hfurther] at hread
            cases hread
            refine .inr ⟨after, c, next, further, hafter, hnext, ?_, hfurther, rfl⟩
            rintro rfl
            exact hbracket next hnext

theorem members_of_last {name : String} {tree : JsonTree} (hname : string cs = .ok (name, next))
    (htree : memberValue value next = (tree, behind)) (hlast : skipBlanks behind = '\x7d' :: rest) :
    members value (fuel + 1) cs = ([(name, tree)], .closed, rest) := by
  simp [members, hname, htree, hlast]

theorem members_of_further {name : String} {tree : JsonTree} {further : List (String × JsonTree)}
    {more : List Char} (hname : string cs = .ok (name, next))
    (htree : memberValue value next = (tree, behind)) (hcomma : skipBlanks behind = ',' :: after)
    (hmore : skipBlanks after = '"' :: more)
    (hfurther : members value fuel more = (further, ending, rest)) :
    members value (fuel + 1) cs = ((name, tree) :: further, ending, rest) := by
  simp [members, hname, htree, hcomma, hmore, hfurther]

/-- Members are closed behind the last, and otherwise go on behind a comma with a name. -/
theorem members_closed {result : List (String × JsonTree)}
    (hread : members value (fuel + 1) cs = (result, .closed, rest)) :
    ∃ name next tree behind, string cs = .ok (name, next) ∧
      memberValue value next = (tree, behind) ∧
      ((skipBlanks behind = '\x7d' :: rest ∧ result = [(name, tree)]) ∨
        ∃ after more further, skipBlanks behind = ',' :: after ∧ skipBlanks after = '"' :: more ∧
          members value fuel more = (further, .closed, rest) ∧
          result = (name, tree) :: further) := by
  rw [members] at hread
  split at hread
  next => cases hread
  next name next hname =>
    rcases htree : memberValue value next with ⟨tree, behind⟩
    refine ⟨name, next, tree, behind, hname, htree, ?_⟩
    rw [htree] at hread
    dsimp only at hread
    split at hread
    next => cases hread
    next c after hafter =>
      split at hread
      next hbrace =>
        subst hbrace
        cases hread
        exact .inl ⟨hafter, rfl⟩
      split at hread
      next => cases hread
      next hcomma =>
        obtain rfl := not_not.mp hcomma
        split at hread
        next => cases hread
        next more hmore =>
          rcases hfurther : members value fuel more with ⟨further, ending, left⟩
          rw [hfurther] at hread
          cases hread
          exact .inr ⟨after, more, further, hafter, hmore, hfurther, rfl⟩
        next => cases hread

end Entries

/-- The reader takes what it takes from the beginning of any text, if there is room for it. -/
def Closes (read : Nat → List Char → β × JsonEnding × List Char) (whole : β → Prop) : Prop :=
  ∀ fuel cs result rest, read fuel cs = (result, .closed, rest) → whole result →
    ∃ taken, cs = taken ++ rest ∧ taken ≠ [] ∧ ∀ other fuel, taken.length ≤ fuel →
      read fuel (taken ++ other) = (result, .closed, other)

theorem closes_items {value : List Char → JsonTree × List Char} (hvalue : Settles value) :
    Closes (items value) fun items => ∀ item ∈ items, item.Whole := by
  intro fuel
  induction fuel with
  | zero => rintro cs result rest ⟨⟩
  | succ fuel ih =>
      intro cs result rest hread hwhole
      obtain ⟨item, behind, hitem, hlater⟩ := items_closed hread
      obtain ⟨hlast, rfl⟩ | ⟨after, c, next, further, hcomma, hnext, hc, hfurther, rfl⟩ := hlater
      · obtain ⟨taken, rfl, htaken⟩ := hvalue _ _ _ hitem (hwhole item List.mem_cons_self)
        obtain ⟨_, blanks, hblanks, rfl⟩ := exists_blanks hlast
        refine ⟨taken ++ (blanks ++ [']']), by simp, by simp, fun other fuel hfuel => ?_⟩
        -- the item is settled by what is behind it, be it a blank or the bracket
        have hitem := htaken (blanks ++ ']' :: other) (head?_append_congr blanks rfl)
        obtain ⟨fuel, rfl⟩ := Nat.exists_eq_add_of_le' (show 1 ≤ fuel by simp at hfuel; omega)
        have hlast : skipBlanks (blanks ++ ']' :: other) = ']' :: other :=
          skipBlanks_append hblanks (by simp [isBlank])
        simpa using items_of_last hitem hlast
      · obtain ⟨hwholeItem, hwholeFurther⟩ := List.forall_mem_cons.mp hwhole
        obtain ⟨taken, rfl, htaken⟩ := hvalue _ _ _ hitem hwholeItem
        obtain ⟨_, blanks, hblanks, rfl⟩ := exists_blanks hcomma
        obtain ⟨hstop, gap, hgap, rfl⟩ := exists_blanks hnext
        obtain ⟨more, hmore, hsome, hclosed⟩ := ih _ _ _ hfurther hwholeFurther
        obtain ⟨c, more, rfl⟩ := List.exists_cons_of_ne_nil hsome
        obtain ⟨rfl, rfl⟩ := List.cons.inj hmore
        refine ⟨taken ++ (blanks ++ ',' :: (gap ++ c :: more)), by simp, by simp,
          fun other fuel hfuel => ?_⟩
        have hitem := htaken (blanks ++ ',' :: (gap ++ c :: (more ++ other)))
          (head?_append_congr blanks rfl)
        obtain ⟨fuel, rfl⟩ := Nat.exists_eq_add_of_le' (show 1 ≤ fuel by simp at hfuel; omega)
        have hcomma : skipBlanks (blanks ++ ',' :: (gap ++ c :: (more ++ other))) =
            ',' :: (gap ++ c :: (more ++ other)) := skipBlanks_append hblanks (by simp [isBlank])
        have hnext : skipBlanks (gap ++ c :: (more ++ other)) = c :: (more ++ other) :=
          skipBlanks_append hgap hstop
        have hfurther := hclosed other fuel (by simp at hfuel ⊢; omega)
        simpa using items_of_further hitem hcomma hnext hc hfurther

theorem settles_memberValue {value : List Char → JsonTree × List Char} (hvalue : Settles value) :
    Settles (memberValue value) := by
  intro cs tree rest hread hwhole
  unfold memberValue at hread
  split at hread
  next after hcolon =>
    obtain ⟨_, blanks, hblanks, rfl⟩ := exists_blanks hcolon
    obtain ⟨hstop, gap, hgap, hafter⟩ := exists_blanks (rfl : skipBlanks after = _)
    obtain ⟨taken, htext, htaken⟩ := hvalue _ _ _ hread hwhole
    rw [htext] at hstop hafter
    refine ⟨blanks ++ ':' :: (gap ++ taken), by simp [hafter], fun other hother => ?_⟩
    have hskip : skipBlanks (gap ++ (taken ++ other)) = taken ++ other := by
      refine skipBlanks_append hgap ?_
      rwa [head?_append_congr taken hother]
    have hbehind : skipBlanks (blanks ++ ':' :: (gap ++ (taken ++ other))) =
        ':' :: (gap ++ (taken ++ other)) := skipBlanks_append hblanks (by simp [isBlank])
    have hsame := htaken other hother
    simp [memberValue, hbehind, hskip, hsame]
  all_goals
    cases hread
    obtain ⟨_, hfault⟩ := hwhole
    cases hfault

/-- A name and what stands under it are settled like a value. -/
theorem exists_taken_member {value : List Char → JsonTree × List Char} (hvalue : Settles value)
    {cs next behind : List Char} {name : String} {tree : JsonTree}
    (hname : string cs = .ok (name, next)) (htree : memberValue value next = (tree, behind))
    (hwhole : tree.Whole) :
    ∃ taken, cs = taken ++ behind ∧ ∀ other, other.head? = behind.head? →
      ∃ next, string (taken ++ other) = .ok (name, next) ∧
        memberValue value next = (tree, other) := by
  obtain ⟨called, rfl, hcalled⟩ := looksOneAhead_string _ _ _ hname
  obtain ⟨taken, rfl, htaken⟩ := settles_memberValue hvalue _ _ _ htree hwhole
  refine ⟨called ++ taken, by rw [List.append_assoc], fun other hother => ?_⟩
  rw [List.append_assoc]
  exact ⟨_, hcalled _ (head?_append_congr taken hother), htaken other hother⟩

theorem closes_members {value : List Char → JsonTree × List Char} (hvalue : Settles value) :
    Closes (members value) fun members => ∀ member ∈ members, member.2.Whole := by
  intro fuel
  induction fuel with
  | zero => rintro cs result rest ⟨⟩
  | succ fuel ih =>
      intro cs result rest hread hwhole
      obtain ⟨name, next, tree, behind, hname, htree, hlater⟩ := members_closed hread
      obtain ⟨hlast, rfl⟩ | ⟨after, more, further, hcomma, hmore, hfurther, rfl⟩ := hlater
      · obtain ⟨taken, rfl, htaken⟩ :=
          exists_taken_member hvalue hname htree (hwhole _ List.mem_cons_self)
        obtain ⟨_, blanks, hblanks, rfl⟩ := exists_blanks hlast
        refine ⟨taken ++ (blanks ++ ['\x7d']), by simp, by simp, fun other fuel hfuel => ?_⟩
        obtain ⟨next, hname, htree⟩ :=
          htaken (blanks ++ '\x7d' :: other) (head?_append_congr blanks rfl)
        obtain ⟨fuel, rfl⟩ := Nat.exists_eq_add_of_le' (show 1 ≤ fuel by simp at hfuel; omega)
        have hlast : skipBlanks (blanks ++ '\x7d' :: other) = '\x7d' :: other :=
          skipBlanks_append hblanks (by simp [isBlank])
        simpa using members_of_last hname htree hlast
      · obtain ⟨hwholeTree, hwholeFurther⟩ := List.forall_mem_cons.mp hwhole
        obtain ⟨taken, rfl, htaken⟩ := exists_taken_member hvalue hname htree hwholeTree
        obtain ⟨_, blanks, hblanks, rfl⟩ := exists_blanks hcomma
        obtain ⟨_, gap, hgap, rfl⟩ := exists_blanks hmore
        obtain ⟨others, rfl, _, hclosed⟩ := ih _ _ _ hfurther hwholeFurther
        refine ⟨taken ++ (blanks ++ ',' :: (gap ++ '"' :: others)), by simp, by simp,
          fun other fuel hfuel => ?_⟩
        obtain ⟨next, hname, htree⟩ :=
          htaken (blanks ++ ',' :: (gap ++ '"' :: (others ++ other)))
            (head?_append_congr blanks rfl)
        obtain ⟨fuel, rfl⟩ := Nat.exists_eq_add_of_le' (show 1 ≤ fuel by simp at hfuel; omega)
        have hcomma : skipBlanks (blanks ++ ',' :: (gap ++ '"' :: (others ++ other))) =
            ',' :: (gap ++ '"' :: (others ++ other)) :=
          skipBlanks_append hblanks (by simp [isBlank])
        have hmore : skipBlanks (gap ++ '"' :: (others ++ other)) = '"' :: (others ++ other) :=
          skipBlanks_append hgap (by simp [isBlank])
        have hfurther := hclosed other fuel (by simp at hfuel; omega)
        simpa using members_of_further hname htree hcomma hmore hfurther

/-- A list without faults ends with its bracket, whatever follows. -/
theorem exists_taken_readList {value : List Char → JsonTree × List Char} (hvalue : Settles value)
    {cs rest : List Char} {tree : JsonTree} (hread : readList value cs = (tree, rest))
    (hwhole : tree.Whole) :
    ∃ taken, cs = taken ++ rest ∧ ∀ other, readList value (taken ++ other) = (tree, other) := by
  unfold readList at hread
  split at hread
  next =>
    cases hread
    cases (whole_list_iff.mp hwhole).1
  next after hbracket =>
    cases hread
    obtain ⟨_, blanks, hblanks, rfl⟩ := exists_blanks hbracket
    refine ⟨blanks ++ [']'], by simp, fun other => ?_⟩
    have hskip : skipBlanks (blanks ++ ']' :: other) = ']' :: other :=
      skipBlanks_append hblanks (by simp [isBlank])
    simp [readList, hskip]
  next hsome hbracket =>
    rcases hitems : items value (skipBlanks cs).length (skipBlanks cs) with ⟨result, ending, left⟩
    rw [hitems] at hread
    cases hread
    obtain ⟨rfl, hwholeItems⟩ := whole_list_iff.mp hwhole
    obtain ⟨hstop, blanks, hblanks, hcs⟩ := exists_blanks (rfl : skipBlanks cs = _)
    obtain ⟨taken, htext, hsomeTaken, hclosed⟩ := closes_items hvalue _ _ _ _ hitems hwholeItems
    obtain ⟨c, taken, rfl⟩ := List.exists_cons_of_ne_nil hsomeTaken
    rw [htext] at hcs hstop hbracket
    refine ⟨blanks ++ c :: taken, by simp [hcs], fun other => ?_⟩
    have hskip : skipBlanks (blanks ++ c :: (taken ++ other)) = c :: (taken ++ other) :=
      skipBlanks_append hblanks hstop
    have hitems := hclosed other (c :: taken ++ other).length (by simp)
    rw [List.append_assoc, List.cons_append, readList, hskip]
    split
    next => contradiction
    next heq =>
      obtain ⟨rfl, _⟩ := List.cons.inj heq
      exact absurd rfl (hbracket _)
    next => rw [← List.cons_append, hitems]

/-- An object without faults ends with its brace, whatever follows. -/
theorem exists_taken_readRecord {value : List Char → JsonTree × List Char} (hvalue : Settles value)
    {cs rest : List Char} {tree : JsonTree} (hread : readRecord value cs = (tree, rest))
    (hwhole : tree.Whole) :
    ∃ taken, cs = taken ++ rest ∧ ∀ other, readRecord value (taken ++ other) = (tree, other) := by
  unfold readRecord at hread
  split at hread
  next =>
    cases hread
    cases (whole_record_iff.mp hwhole).1
  next after hbrace =>
    cases hread
    obtain ⟨_, blanks, hblanks, rfl⟩ := exists_blanks hbrace
    refine ⟨blanks ++ ['\x7d'], by simp, fun other => ?_⟩
    have hskip : skipBlanks (blanks ++ '\x7d' :: other) = '\x7d' :: other :=
      skipBlanks_append hblanks (by simp [isBlank])
    simp [readRecord, hskip]
  next after hquote =>
    rcases hmembers : members value after.length after with ⟨result, ending, left⟩
    rw [hmembers] at hread
    cases hread
    obtain ⟨rfl, hwholeMembers⟩ := whole_record_iff.mp hwhole
    obtain ⟨_, blanks, hblanks, rfl⟩ := exists_blanks hquote
    obtain ⟨taken, rfl, _, hclosed⟩ := closes_members hvalue _ _ _ _ hmembers hwholeMembers
    refine ⟨blanks ++ '"' :: taken, by simp, fun other => ?_⟩
    have hskip : skipBlanks (blanks ++ '"' :: (taken ++ other)) = '"' :: (taken ++ other) :=
      skipBlanks_append hblanks (by simp [isBlank])
    have hmembers := hclosed other (taken ++ other).length (by simp)
    simp only [List.append_assoc, List.cons_append, readRecord, hskip, hmembers]
  next =>
    cases hread
    obtain ⟨_, hfault⟩ := hwhole
    cases hfault

theorem read_of_scalar {cs : List Char} (hlist : cs.head? ≠ some '[')
    (hrecord : cs.head? ≠ some '\x7b') (depth : Nat) : read depth cs = readScalar cs := by
  cases depth <;>
  · unfold read
    split
    · exact absurd rfl hlist
    · exact absurd rfl hrecord
    · rfl

theorem exists_taken_read_of_scalar {depth : Nat} {cs rest : List Char} {tree : JsonTree}
    (hlist : cs.head? ≠ some '[') (hrecord : cs.head? ≠ some '\x7b')
    (hread : read depth cs = (tree, rest)) (hwhole : tree.Whole) :
    ∃ taken, cs = taken ++ rest ∧ ∀ other, other.head? = rest.head? ∨ ¬ tree.IsScalar →
      read depth (taken ++ other) = (tree, other) := by
  rw [read_of_scalar hlist hrecord] at hread
  obtain ⟨hscalar, taken, rfl, htaken⟩ := settles_readScalar hread hwhole
  refine ⟨taken, rfl, fun other hother => ?_⟩
  have hnext := hother.resolve_right (not_not.mpr hscalar)
  rw [read_of_scalar (by rwa [head?_append_congr taken hnext])
    (by rwa [head?_append_congr taken hnext]), htaken other hnext]

/-- What is read without faults is settled by the character behind it, and a list or an object is
settled by itself. -/
theorem exists_taken_read {depth : Nat} {cs rest : List Char} {tree : JsonTree}
    (hread : read depth cs = (tree, rest)) (hwhole : tree.Whole) :
    ∃ taken, cs = taken ++ rest ∧ ∀ other, other.head? = rest.head? ∨ ¬ tree.IsScalar →
      read depth (taken ++ other) = (tree, other) := by
  induction depth generalizing cs tree rest with
  | zero =>
      by_cases hlist : cs.head? = some '['
      · obtain ⟨cs, rfl⟩ := List.head?_eq_some_iff.mp hlist
        cases hread
        cases (whole_list_iff.mp hwhole).1
      by_cases hrecord : cs.head? = some '\x7b'
      · obtain ⟨cs, rfl⟩ := List.head?_eq_some_iff.mp hrecord
        cases hread
        cases (whole_record_iff.mp hwhole).1
      exact exists_taken_read_of_scalar hlist hrecord hread hwhole
  | succ depth ih =>
      -- the parts may be of either kind, so of them no more is used than that they are settled
      have hvalue : Settles (read depth) := by
        intro cs tree rest hread hwhole
        obtain ⟨taken, htext, htaken⟩ := ih hread hwhole
        exact ⟨taken, htext, fun other hother => htaken other (.inl hother)⟩
      by_cases hlist : cs.head? = some '['
      · obtain ⟨cs, rfl⟩ := List.head?_eq_some_iff.mp hlist
        obtain ⟨taken, rfl, htaken⟩ := exists_taken_readList hvalue hread hwhole
        exact ⟨'[' :: taken, rfl, fun other _ => htaken other⟩
      by_cases hrecord : cs.head? = some '\x7b'
      · obtain ⟨cs, rfl⟩ := List.head?_eq_some_iff.mp hrecord
        obtain ⟨taken, rfl, htaken⟩ := exists_taken_readRecord hvalue hread hwhole
        exact ⟨'\x7b' :: taken, rfl, fun other _ => htaken other⟩
      exact exists_taken_read_of_scalar hlist hrecord hread hwhole

/-- The text is one value between blanks. -/
def IsDocument (cs : List Char) (json : JsonValue) : Prop :=
  ∃ tree rest, read nestingLimit (skipBlanks cs) = (tree, rest) ∧ tree.value = .ok json ∧
    ∀ c ∈ rest, isBlank c = true

/-- A text that begins with a list or an object without faults begins with a document, and what
follows the document has no effect. -/
theorem exists_document {text : String} {json : JsonValue}
    (hvalue : (ofText text).value = .ok json) (hparts : ¬ (ofText text).IsScalar) :
    ∃ document rest, text.toList = document ++ rest ∧ IsDocument document json ∧
      ∀ other, ofText (String.ofList (document ++ other)) = ofText text := by
  rcases hread : read nestingLimit (skipBlanks text.toList) with ⟨tree, rest⟩
  have htree : ofText text = tree := by rw [ofText, hread]
  rw [htree] at hvalue hparts ⊢
  obtain ⟨hstop, blanks, hblanks, htext⟩ := exists_blanks (rfl : skipBlanks text.toList = _)
  obtain ⟨taken, hskipped, htaken⟩ := exists_taken_read hread ⟨json, hvalue⟩
  -- of no characters at all nothing is read but a fault
  have hsome : taken ≠ [] := by
    rintro rfl
    have hnothing := htaken [] (.inr hparts)
    cases hnothing
    cases hvalue
  obtain ⟨c, taken, rfl⟩ := List.exists_cons_of_ne_nil hsome
  rw [hskipped] at hstop
  have hread (other : List Char) :
      read nestingLimit (skipBlanks (blanks ++ (c :: taken ++ other))) = (tree, other) := by
    have hskip : skipBlanks (blanks ++ (c :: taken ++ other)) = c :: taken ++ other :=
      skipBlanks_append hblanks hstop
    rw [hskip]
    exact htaken other (.inr hparts)
  refine ⟨blanks ++ c :: taken, rest, by rw [htext, hskipped, List.append_assoc], ?_, ?_⟩
  · exact ⟨tree, [], by simpa using hread [], hvalue, by simp⟩
  · intro other
    rw [ofText, String.toList_ofList, List.append_assoc, hread]

end JsonTree

end ChainExtract
