import ChainExtract.Export.Xes
import Mathlib.Tactic.Common

/-! # Reading markup

A reader of documents that consist of elements with attributes: it splits the characters into
tags, undoes the five character entities in the values of attributes, and nests the elements
that tags begin and end. Between tags it takes nothing but white space.
-/

namespace ChainExtract

/-- A tag: the beginning or the end of an element, or an element without content. -/
inductive Tag where
  | opening (name : String) (attributes : List (String × String))
  | closing (name : String)
  | lone (name : String) (attributes : List (String × String))
deriving DecidableEq, Repr

/-- An element with its attributes and the elements inside it. -/
inductive Element where
  | mk (name : String) (attributes : List (String × String)) (children : List Element)

/-- Where a reader stands in a document. -/
inductive LexerPlace where
  | between
  /-- Behind the bracket with which a tag begins. -/
  | bracket
  | declaration
  /-- Behind a question mark in a declaration, which ends at a bracket. -/
  | questioned
  | name
  /-- Behind white space in a tag, where an attribute may begin. -/
  | spaced
  | key
  /-- Behind the equals sign, in front of the value. -/
  | assigned
  | value
  | entity
  /-- Behind the value of an attribute. -/
  | quoted
  /-- Behind the slash with which a tag of an element without content ends. -/
  | slashed
  | ending
deriving DecidableEq, Repr

/-- A reader of tags: its place, the parts of the tag that it is in, and the tags before it. -/
structure Lexer where
  place : LexerPlace := .between
  name : List Char := []
  attributes : List (String × String) := []
  key : List Char := []
  value : List Char := []
  entity : List Char := []
  tags : List Tag := []
deriving DecidableEq, Repr

namespace Lexer

/-- Whether a character may stand in names of elements and attributes. -/
def isNamed (c : Char) : Bool := c.isAlphanum || c == ':' || c == '-' || c == '.' || c == '_'

/-- The character that an entity stands for. -/
def ofEntity? (entity : List Char) : Option Char :=
  if entity = ['a', 'm', 'p'] then some '&'
  else if entity = ['l', 't'] then some '<'
  else if entity = ['g', 't'] then some '>'
  else if entity = ['q', 'u', 'o', 't'] then some '"'
  else if entity = ['a', 'p', 'o', 's'] then some XesLog.apostrophe
  else none

/-- Puts a tag behind those before it. -/
def emit (lexer : Lexer) (tag : Tag) : Lexer := { tags := lexer.tags ++ [tag] }

/-- Goes on in a tag, behind its name or an attribute. -/
def proceed (lexer : Lexer) (c : Char) : Option Lexer :=
  if c.isWhitespace then some { lexer with place := .spaced }
  else if c = '>' then some (lexer.emit (.opening (String.ofList lexer.name) lexer.attributes))
  else if c = '/' then some { lexer with place := .slashed }
  else none

/-- Reads a character, if it may stand where the reader is. -/
def step (lexer : Lexer) (c : Char) : Option Lexer :=
  match lexer.place with
  | .between =>
    if c.isWhitespace then some lexer
    else if c = '<' then some { lexer with place := .bracket }
    else none
  | .bracket =>
    if c = '?' then some { lexer with place := .declaration }
    else if c = '/' then some { lexer with place := .ending }
    else if isNamed c then some { lexer with place := .name, name := [c] }
    else none
  | .declaration =>
    if c = '?' then some { lexer with place := .questioned } else some lexer
  | .questioned =>
    if c = '>' then some { lexer with place := .between }
    else if c = '?' then some lexer
    else some { lexer with place := .declaration }
  | .name =>
    if isNamed c then some { lexer with name := lexer.name ++ [c] } else lexer.proceed c
  | .spaced =>
    if isNamed c then some { lexer with place := .key, key := [c] } else lexer.proceed c
  | .key =>
    if c = '=' then some { lexer with place := .assigned }
    else if isNamed c then some { lexer with key := lexer.key ++ [c] }
    else none
  | .assigned => if c = '"' then some { lexer with place := .value, value := [] } else none
  | .value =>
    if c = '"' then
      some { lexer with
        place := .quoted
        attributes := lexer.attributes ++ [(String.ofList lexer.key, String.ofList lexer.value)]
        key := []
        value := [] }
    else if c = '&' then some { lexer with place := .entity, entity := [] }
    else if c = '<' then none
    else some { lexer with value := lexer.value ++ [c] }
  | .entity =>
    if c = ';' then
      (ofEntity? lexer.entity).map fun named =>
        { lexer with place := .value, value := lexer.value ++ [named], entity := [] }
    else some { lexer with entity := lexer.entity ++ [c] }
  | .quoted => lexer.proceed c
  | .slashed =>
    if c = '>' then some (lexer.emit (.lone (String.ofList lexer.name) lexer.attributes)) else none
  | .ending =>
    if c = '>' then some (lexer.emit (.closing (String.ofList lexer.name)))
    else if isNamed c then some { lexer with name := lexer.name ++ [c] }
    else none

/-- The tags of a document. -/
def tagsOf? (text : String) : Option (List Tag) :=
  (text.toList.foldlM step {}).bind fun lexer =>
    if lexer.place = .between then some lexer.tags else none

/-- The lexer with tags put in front of those that it has read. -/
def behind (before : List Tag) (lexer : Lexer) : Lexer :=
  { lexer with tags := before ++ lexer.tags }

theorem proceed_behind (before : List Tag) (lexer : Lexer) (c : Char) :
    (lexer.behind before).proceed c = (lexer.proceed c).map (behind before) := by
  simp only [proceed]
  split_ifs <;> simp [behind, emit]

/-- What was read before does not matter for a character. -/
theorem step_behind (before : List Tag) (lexer : Lexer) (c : Char) :
    (lexer.behind before).step c = (lexer.step c).map (behind before) := by
  have hplace : (lexer.behind before).place = lexer.place := rfl
  have hproceed := proceed_behind before lexer c
  unfold step
  rw [hplace]
  cases lexer.place with
  | entity =>
      by_cases hend : c = ';'
      · cases hentity : ofEntity? lexer.entity <;> simp [behind, hend, hentity]
      · simp [behind, hend]
  | quoted => exact hproceed
  | _ =>
      simp only
      split_ifs <;> first | exact hproceed | simp [behind, emit]

/-- Reading the text leads from one state of the reader to the other. -/
def Leads (lexer : Lexer) (text : List Char) (after : Lexer) : Prop :=
  text.foldlM step lexer = some after

/-- The text is read as the tags, with nothing left open at its end. -/
def Lexes (text : List Char) (tags : List Tag) : Prop := Leads {} text { tags }

instance (lexer after : Lexer) (text : List Char) : Decidable (Leads lexer text after) :=
  inferInstanceAs (Decidable (_ = _))

instance (text : List Char) (tags : List Tag) : Decidable (Lexes text tags) :=
  inferInstanceAs (Decidable (Leads _ _ _))

theorem Leads.append {lexer middle after : Lexer} {first second : List Char}
    (hfirst : Leads lexer first middle) (hsecond : Leads middle second after) :
    Leads lexer (first ++ second) after := by
  rw [Leads, List.foldlM_append, hfirst]
  exact hsecond

theorem Leads.behind {lexer after : Lexer} {text : List Char} (hleads : Leads lexer text after)
    (before : List Tag) : Leads (lexer.behind before) text (after.behind before) := by
  induction text generalizing lexer with
  | nil =>
      cases hleads
      rfl
  | cons c text ih =>
      rw [Leads, List.foldlM_cons] at hleads ⊢
      rw [step_behind]
      cases hstep : lexer.step c with
      | none => simp [hstep] at hleads
      | some next =>
          rw [hstep] at hleads
          exact ih hleads

theorem Lexes.append {first second : List Char} {firstTags secondTags : List Tag}
    (hfirst : Lexes first firstTags) (hsecond : Lexes second secondTags) :
    Lexes (first ++ second) (firstTags ++ secondTags) := by
  have hbehind := Leads.behind hsecond firstTags
  simp only [Lexer.behind, List.append_nil] at hbehind
  exact Leads.append hfirst hbehind

theorem tagsOf?_of_lexes {text : String} {tags : List Tag} (hlexes : Lexes text.toList tags) :
    tagsOf? text = some tags := by
  rw [tagsOf?, hlexes]
  rfl

theorem lexes_blanks (count : Nat) : Lexes (List.replicate count ' ') [] := by
  induction count with
  | zero => rfl
  | succ count ih => exact ih

/-- Indentation and the line break belong to no tag. -/
theorem lexes_line (depth : Nat) {body : String} {tags : List Tag}
    (hbody : Lexes body.toList tags) : Lexes (XesLog.line depth body).toList tags := by
  have hbreak : Lexes ['\n'] [] := rfl
  simpa [XesLog.line] using ((lexes_blanks (2 * depth)).append hbody).append hbreak

/-- The written form of a character is read as the character. -/
theorem leads_escapeChar (c : Char) {lexer : Lexer} (hplace : lexer.place = .value)
    (hentity : lexer.entity = []) :
    Leads lexer (XesLog.escapeChar c) { lexer with value := lexer.value ++ [c] } := by
  obtain ⟨place, name, attributes, key, value, entity, tags⟩ := lexer
  obtain rfl : place = .value := hplace
  obtain rfl : entity = [] := hentity
  unfold XesLog.escapeChar
  split_ifs with hamp hless hgreater hquote happos
  · subst hamp
    rfl
  · subst hless
    rfl
  · subst hgreater
    rfl
  · subst hquote
    rfl
  · subst happos
    rfl
  · simp [Leads, step, hamp, hless, hquote]

/-- The written form of a text is read as the text, whatever it consists of. -/
theorem leads_escape (text : String) (lexer : Lexer) (hplace : lexer.place = .value)
    (hentity : lexer.entity = []) :
    Leads lexer (XesLog.escape text).toList { lexer with value := lexer.value ++ text.toList } := by
  rw [XesLog.escape, String.toList_ofList]
  induction text.toList generalizing lexer with
  | nil => simp [Leads]
  | cons c text ih =>
      rw [List.flatMap_cons, List.append_cons]
      exact (leads_escapeChar c hplace hentity).append (ih _ hplace hentity)

/-- The reader in the value of an attribute with this key. -/
def valued (name key : String) (attributes : List (String × String)) : Lexer :=
  { place := .value, name := name.toList, key := key.toList, attributes }

/-- The tag with which an element begins that has a key. -/
theorem lexes_keyed {front name : String} (hfront : Leads {} front.toList (valued name "key" []))
    (key : String) :
    Lexes (front ++ XesLog.escape key ++ "\">").toList [.opening name [("key", key)]] := by
  have hkey := hfront.append (leads_escape key _ rfl rfl)
  have hlast : Leads { valued name "key" [] with value := key.toList } "\">".toList
      { tags := [.opening (String.ofList name.toList) [("key", String.ofList key.toList)]] } := rfl
  simp only [String.ofList_toList] at hlast
  simpa [Lexes] using hkey.append hlast

/-- The tag of an element without content that has a key and a value. -/
theorem lexes_valued {front name : String} (hfront : Leads {} front.toList (valued name "key" []))
    (key text : String) :
    Lexes (front ++ XesLog.escape key ++ "\" value=\"" ++ XesLog.escape text ++ "\"/>").toList
      [.lone name [("key", key), ("value", text)]] := by
  have hkey := hfront.append (leads_escape key _ rfl rfl)
  have hvalue : Leads { valued name "key" [] with value := key.toList } "\" value=\"".toList
      (valued name "value" [("key", String.ofList key.toList)]) := rfl
  have htext := leads_escape text (valued name "value" [("key", key)]) rfl rfl
  have hlast : Leads { valued name "value" [("key", key)] with value := text.toList } "\"/>".toList
      { tags := [.lone (String.ofList name.toList)
        [("key", key), ("value", String.ofList text.toList)]] } := rfl
  simp only [String.ofList_toList] at hvalue hlast
  simpa [Lexes] using ((hkey.append hvalue).append htext).append hlast

end Lexer

/-- The elements that tags make: those that have ended in the one that is open, and around it
the ones that are still open, each with what has ended in it before. -/
structure Builder where
  children : List Element := []
  outer : List (String × List (String × String) × List Element) := []

namespace Builder

/-- Takes a tag, which ends no element but the one that is open. -/
def step (builder : Builder) : Tag → Option Builder
  | .opening name attributes => some ⟨[], (name, attributes, builder.children) :: builder.outer⟩
  | .lone name attributes => some ⟨builder.children ++ [.mk name attributes []], builder.outer⟩
  | .closing name =>
    match builder.outer with
    | [] => none
    | (opened, attributes, before) :: outer =>
      if opened = name then some ⟨before ++ [.mk opened attributes builder.children], outer⟩
      else none

/-- The tags are those of the elements. -/
def Builds (tags : List Tag) (elements : List Element) : Prop :=
  ∀ builder : Builder, tags.foldlM step builder =
    some { builder with children := builder.children ++ elements }

theorem builds_nil : Builds [] [] := by
  intro builder
  simp

theorem Builds.append {first second : List Tag} {before elements : List Element}
    (hfirst : Builds first before) (hsecond : Builds second elements) :
    Builds (first ++ second) (before ++ elements) := by
  intro builder
  rw [List.foldlM_append, hfirst]
  refine (hsecond _).trans ?_
  simp

theorem builds_lone (name : String) (attributes : List (String × String)) :
    Builds [.lone name attributes] [.mk name attributes []] := by
  intro builder
  rfl

theorem Builds.enclose {tags : List Tag} {children : List Element} (htags : Builds tags children)
    (name : String) (attributes : List (String × String)) :
    Builds (.opening name attributes :: tags ++ [.closing name])
      [.mk name attributes children] := by
  intro builder
  simp only [List.cons_append, List.foldlM_cons, List.foldlM_append, step, Option.bind_eq_bind,
    Option.bind_some, htags ⟨[], _⟩]
  simp

end Builder

/-- The element that a document consists of. -/
def Element.ofText? (text : String) : Option Element := do
  let built ← (← Lexer.tagsOf? text).foldlM Builder.step {}
  match built with
  | ⟨[root], []⟩ => return root
  | _ => none

/-- The lines are read as the elements. -/
def Writes (lines : List String) (elements : List Element) : Prop :=
  ∃ tags, Lexer.Lexes (lines.flatMap String.toList) tags ∧ Builder.Builds tags elements

namespace Writes

open Lexer Builder XesLog

theorem nil : Writes [] [] := ⟨[], rfl, builds_nil⟩

theorem append {first second : List String} {before elements : List Element}
    (hfirst : Writes first before) (hsecond : Writes second elements) :
    Writes (first ++ second) (before ++ elements) := by
  obtain ⟨firstTags, hfirst, hbefore⟩ := hfirst
  obtain ⟨secondTags, hsecond, helements⟩ := hsecond
  exact ⟨firstTags ++ secondTags, by simpa using hfirst.append hsecond, hbefore.append helements⟩

theorem flatMap {α : Type} (items : List α) {lines : α → List String} {element : α → Element}
    (hitems : ∀ item ∈ items, Writes (lines item) [element item]) :
    Writes (items.flatMap lines) (items.map element) := by
  induction items with
  | nil => exact nil
  | cons item items ih =>
      obtain ⟨hitem, hrest⟩ := List.forall_mem_cons.mp hitems
      exact hitem.append (ih hrest)

/-- A declaration belongs to no element. -/
theorem declaration (depth : Nat) {body : String} (hbody : Lexes body.toList []) :
    Writes [line depth body] [] :=
  ⟨[], by simpa using lexes_line depth hbody, builds_nil⟩

theorem lone (depth : Nat) {body name : String} {attributes : List (String × String)}
    (hbody : Lexes body.toList [.lone name attributes]) :
    Writes [line depth body] [.mk name attributes []] :=
  ⟨_, by simpa using lexes_line depth hbody, builds_lone name attributes⟩

/-- An element is written as its children between its own tags. -/
theorem element (depth : Nat) {first last name : String} {attributes : List (String × String)}
    {lines : List String} {children : List Element}
    (hfirst : Lexes first.toList [.opening name attributes]) (hlines : Writes lines children)
    (hlast : Lexes last.toList [.closing name]) :
    Writes ([line depth first] ++ lines ++ [line depth last])
      [.mk name attributes children] := by
  obtain ⟨tags, htags, hchildren⟩ := hlines
  refine ⟨_, ?_, hchildren.enclose name attributes⟩
  simpa using ((lexes_line depth hfirst).append htags).append (lexes_line depth hlast)

/-- A document is read back if its lines are those of one element. -/
theorem ofText? {lines : List String} {root : Element} (hlines : Writes lines [root]) :
    Element.ofText? (String.join lines) = some root := by
  obtain ⟨tags, htags, hroot⟩ := hlines
  have htext : Lexes (String.join lines).toList tags := by simpa using htags
  simp [Element.ofText?, tagsOf?_of_lexes htext, hroot {}]

end Writes

end ChainExtract
