import ChainExtract.Proofs.Export.Xml.Documents

/-! # Printed elements

An element is printed as lines, one for each of its tags, indented as deep as the tag stands. The
five characters that mark up a document are written as references, and all others as they are. The
printed text is read as the element, with its attribute values as XML has them read.
-/

namespace ChainExtract

/-- The written form of an attribute behind a blank. -/
def attributeText (entry : String × String) : List Char :=
  ' ' :: entry.1.toList ++ '=' :: '"' :: entry.2.toList.flatMap XesLog.escapeChar ++ ['"']

def attributesText (attributes : List (String × String)) : List Char :=
  attributes.flatMap attributeText

namespace Tag

/-- The written form of a tag. -/
def text : Tag → List Char
  | .opening name attributes => '<' :: name.toList ++ attributesText attributes ++ ['>']
  | .closing name => '<' :: '/' :: name.toList ++ ['>']
  | .lone name attributes => '<' :: name.toList ++ attributesText attributes ++ ['/', '>']

/-- The tag with other values of its attributes. -/
def mapValues (f : String → String) : Tag → Tag
  | .opening name attributes => .opening name (attributes.map (Prod.map id f))
  | .closing name => .closing name
  | .lone name attributes => .lone name (attributes.map (Prod.map id f))

/-- The values of the attributes of a tag. -/
def values : Tag → List String
  | .opening _ attributes | .lone _ attributes => attributes.map (·.2)
  | .closing _ => []

/-- The names of the attributes of a tag are names, and they differ. -/
def ProperKeys (keys : List String) : Prop := (∀ key ∈ keys, Xml.isName key) ∧ keys.Nodup

instance (keys : List String) : Decidable (ProperKeys keys) :=
  inferInstanceAs (Decidable (_ ∧ _))

/-- The names in a tag are proper. -/
def Proper : Tag → Prop
  | .opening name attributes | .lone name attributes =>
    Xml.isName name ∧ ProperKeys (attributes.map (·.1))
  | .closing name => Xml.isName name

end Tag

/-- A tag and how deep it stands. -/
abbrev TagLine := Nat × Tag

namespace TagLine

/-- The line of a tag, with two blanks for a step of depth. -/
def text (line : TagLine) : List Char := List.replicate (2 * line.1) ' ' ++ line.2.text ++ ['\n']

def mapValues (f : String → String) (line : TagLine) : TagLine := (line.1, line.2.mapValues f)

end TagLine

namespace Element

mutual

/-- The element with other values of the attributes in it. -/
def mapValues (f : String → String) : Element → Element
  | .mk name attributes children =>
    .mk name (attributes.map (Prod.map id f)) (mapValuesAll f children)

def mapValuesAll (f : String → String) : List Element → List Element
  | [] => []
  | element :: rest => mapValues f element :: mapValuesAll f rest

end

mutual

/-- The values of the attributes in an element. -/
def values : Element → List String
  | .mk _ attributes children => attributes.map (·.2) ++ valuesAll children

def valuesAll : List Element → List String
  | [] => []
  | element :: rest => values element ++ valuesAll rest

end

mutual

/-- The tags of an element are proper. -/
def Proper : Element → Prop
  | .mk name attributes children => (Tag.opening name attributes).Proper ∧ ProperAll children

def ProperAll : List Element → Prop
  | [] => True
  | element :: rest => Proper element ∧ ProperAll rest

end

mutual

/-- The lines of an element. What has attributes but no children is a single tag. -/
def layout (depth : Nat) : Element → List TagLine
  | .mk name attributes children =>
    if children.isEmpty && !attributes.isEmpty then [(depth, .lone name attributes)]
    else
      (depth, .opening name attributes) :: layoutAll (depth + 1) children ++
        [(depth, .closing name)]

def layoutAll (depth : Nat) : List Element → List TagLine
  | [] => []
  | element :: rest => layout depth element ++ layoutAll depth rest

end

/-- The printed form of an element. -/
def text (element : Element) : List Char := (element.layout 0).flatMap TagLine.text

theorem mapValuesAll_eq_map (f : String → String) (children : List Element) :
    mapValuesAll f children = children.map (mapValues f) := by
  induction children with
  | nil => rfl
  | cons element rest ih => rw [mapValuesAll, ih, List.map_cons]

theorem valuesAll_eq_flatMap (children : List Element) :
    valuesAll children = children.flatMap values := by
  induction children with
  | nil => rfl
  | cons element rest ih => rw [valuesAll, ih, List.flatMap_cons]

theorem properAll_iff (children : List Element) :
    ProperAll children ↔ ∀ element ∈ children, element.Proper := by
  induction children with
  | nil => simp [ProperAll]
  | cons element rest ih => rw [ProperAll, ih, List.forall_mem_cons]

theorem layoutAll_eq_flatMap (depth : Nat) (children : List Element) :
    layoutAll depth children = children.flatMap (layout depth) := by
  induction children with
  | nil => rfl
  | cons element rest ih => rw [layoutAll, ih, List.flatMap_cons]

theorem isEmpty_mapValuesAll (f : String → String) (children : List Element) :
    (mapValuesAll f children).isEmpty = children.isEmpty := by
  cases children <;> rfl

mutual

theorem layout_mapValues (f : String → String) (depth : Nat) : ∀ element : Element,
    (element.mapValues f).layout depth = (element.layout depth).map (TagLine.mapValues f)
  | .mk name attributes children => by
      rw [mapValues, layout, layout, isEmpty_mapValuesAll, List.isEmpty_map]
      split
      · rfl
      · simp [layoutAll_mapValuesAll f (depth + 1) children, TagLine.mapValues, Tag.mapValues]

theorem layoutAll_mapValuesAll (f : String → String) (depth : Nat) : ∀ children : List Element,
    layoutAll depth (mapValuesAll f children) =
      (layoutAll depth children).map (TagLine.mapValues f)
  | [] => rfl
  | element :: rest => by
      rw [mapValuesAll, layoutAll, layoutAll, layout_mapValues f depth element,
        layoutAll_mapValuesAll f depth rest, List.map_append]

end

mutual

/-- The values in the lines of an element are those in it. -/
theorem flatMap_values_layout (depth : Nat) : ∀ element : Element,
    (element.layout depth).flatMap (fun line => line.2.values) = element.values
  | .mk name attributes children => by
      rw [layout, values]
      split
      next hlone =>
        obtain rfl : children = [] := by simp_all
        rfl
      next =>
        rw [List.flatMap_append, List.flatMap_cons, flatMap_values_layoutAll (depth + 1) children]
        simp [Tag.values]

theorem flatMap_values_layoutAll (depth : Nat) : ∀ children : List Element,
    (layoutAll depth children).flatMap (fun line => line.2.values) = valuesAll children
  | [] => rfl
  | element :: rest => by
      rw [layoutAll, valuesAll, List.flatMap_append, flatMap_values_layout depth element,
        flatMap_values_layoutAll depth rest]

end

mutual

theorem Proper.layout (depth : Nat) : ∀ element : Element, element.Proper →
    ∀ line ∈ element.layout depth, line.2.Proper
  | .mk name attributes children, hproper => by
      obtain ⟨htag, hchildren⟩ := hproper
      rw [Element.layout]
      split
      · exact fun line hline => List.mem_singleton.mp hline ▸ htag
      · have hinside := ProperAll.layoutAll (depth + 1) children hchildren
        have hclosing : (Tag.closing name).Proper := htag.1
        simp only [List.cons_append, List.forall_mem_cons, List.forall_mem_append,
          List.not_mem_nil, false_imp_iff, implies_true, and_true]
        exact ⟨htag, hinside, hclosing⟩

theorem ProperAll.layoutAll (depth : Nat) : ∀ children : List Element, ProperAll children →
    ∀ line ∈ layoutAll depth children, line.2.Proper
  | [], _ => fun line hline => nomatch hline
  | element :: rest, hproper => by
      obtain ⟨helement, hrest⟩ := hproper
      rw [Element.layoutAll, List.forall_mem_append]
      exact ⟨Proper.layout depth element helement, ProperAll.layoutAll depth rest hrest⟩

end

open Builder in
mutual

/-- The tags of the lines of an element make the element. -/
theorem builds_layout (depth : Nat) : ∀ element : Element,
    Builds ((element.layout depth).map (·.2)) [element]
  | .mk name attributes children => by
      rw [layout]
      split
      next hlone =>
        obtain rfl : children = [] := by simp_all
        exact builds_lone name attributes
      next => simpa using (builds_layoutAll (depth + 1) children).enclose name attributes

theorem builds_layoutAll (depth : Nat) : ∀ children : List Element,
    Builds ((layoutAll depth children).map (·.2)) children
  | [] => builds_nil
  | element :: rest => by
      rw [layoutAll, List.map_append]
      exact (builds_layout depth element).append (builds_layoutAll depth rest)

end

end Element

end ChainExtract
