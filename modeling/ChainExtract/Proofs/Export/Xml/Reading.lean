import ChainExtract.Proofs.Export.Xml.Printing

/-! # Reading printed elements

A reader of XML takes a printed element if documents may have all characters of its attribute
values. It reads these as XML has attribute values read, and finds everything else as it was.
-/

namespace ChainExtract

namespace Xml

/-! ### Characters -/

theorem isChar_of_isNamed {c : Char} (hnamed : isNamed c) : isChar c := by
  simp [isNamed, beginsName, within] at hnamed
  simp [isChar, within]
  omega

theorem isNamed_of_beginsName {c : Char} (hbegins : beginsName c) : isNamed c := by
  simp [isNamed, hbegins]

/-- A name is a first character with others behind it. -/
theorem exists_cons_of_isName {name : String} (hname : isName name) :
    ∃ c rest, name.toList = c :: rest ∧ beginsName c ∧ ∀ other ∈ rest, isNamed other := by
  unfold isName at hname
  split at hname
  next => cases hname
  next c rest htext => exact ⟨c, rest, htext, by simpa using hname⟩

theorem isNamed_of_mem {name : String} (hname : isName name) : ∀ c ∈ name.toList, isNamed c := by
  obtain ⟨first, rest, htext, hfirst, hrest⟩ := exists_cons_of_isName hname
  rw [htext]
  exact List.forall_mem_cons.mpr ⟨isNamed_of_beginsName hfirst, hrest⟩

theorem all_isChar_name {name : String} (hname : isName name) : name.toList.all isChar :=
  List.all_eq_true.mpr fun c hc => isChar_of_isNamed (isNamed_of_mem hname c hc)

theorem return_notMem_name {name : String} (hname : isName name) : '\r' ∉ name.toList := fun hmem =>
  absurd (isNamed_of_mem hname _ hmem) (by decide)

/-- A reference does not hide a character that documents may not have. -/
theorem all_isChar_escapeChar (c : Char) : (XesLog.escapeChar c).all isChar = isChar c := by
  unfold XesLog.escapeChar
  split_ifs with hamp hless hgreater hquote happos
  · subst hamp
    rfl
  · subst hless
    rfl
  · subst hgreater
    rfl
  · subst hquote
    rfl
  · subst happos
    rfl
  · simp

theorem all_isChar_escape (text : List Char) :
    (text.flatMap XesLog.escapeChar).all isChar = text.all isChar := by
  simp only [List.all_flatMap, all_isChar_escapeChar]

theorem all_isChar_attributesText {attributes : List (String × String)}
    (hnames : ∀ key ∈ attributes.map (·.1), isName key) :
    (attributesText attributes).all isChar =
      (attributes.map (·.2)).all fun value => value.toList.all isChar := by
  have hblank : isChar ' ' := rfl
  have hequals : isChar '=' := rfl
  have hquote : isChar '"' := rfl
  rw [attributesText, List.all_flatMap, List.all_map, Bool.eq_iff_iff, List.all_eq_true,
    List.all_eq_true]
  refine forall₂_congr fun entry hentry => ?_
  have hname := all_isChar_name (hnames entry.1 (List.mem_map_of_mem hentry))
  simp only [attributeText, List.all_append, List.all_cons, List.all_nil, all_isChar_escape,
    hname, hblank, hequals, hquote, Bool.true_and, Bool.and_true, Function.comp_apply]

theorem all_isChar_tag {tag : Tag} (hproper : tag.Proper) :
    tag.text.all isChar = tag.values.all fun value => value.toList.all isChar := by
  have hless : isChar '<' := rfl
  have hgreater : isChar '>' := rfl
  have hslash : isChar '/' := rfl
  cases tag with
  | closing name =>
      have hname := all_isChar_name hproper
      simp only [Tag.text, Tag.values, List.all_append, List.all_cons, List.all_nil, hname, hless,
        hgreater, hslash, Bool.and_true]
  | opening name attributes | lone name attributes =>
      obtain ⟨hname, hnames, -⟩ := hproper
      simp only [Tag.text, Tag.values, List.all_append, List.all_cons, List.all_nil,
        all_isChar_name hname, all_isChar_attributesText hnames, hless, hgreater, hslash,
        Bool.true_and, Bool.and_true]

theorem all_isChar_line {line : TagLine} (hproper : line.2.Proper) :
    line.text.all isChar = line.2.values.all fun value => value.toList.all isChar := by
  have hblanks : (List.replicate (2 * line.1) ' ').all isChar := by
    simp only [List.all_eq_true]
    exact fun c hc => List.eq_of_mem_replicate hc ▸ rfl
  have hbreak : isChar '\n' := rfl
  simp only [TagLine.text, List.all_append, List.all_cons, List.all_nil, all_isChar_tag hproper,
    hblanks, hbreak, Bool.true_and, Bool.and_true]

/-- Documents may have the characters of a printed element if they may have those of its
attribute values. -/
theorem all_isChar_text {element : Element} (hproper : element.Proper) :
    element.text.all isChar = element.values.all fun value => value.toList.all isChar := by
  rw [Element.text, List.all_flatMap, ← Element.flatMap_values_layout 0 element, List.all_flatMap,
    Bool.eq_iff_iff, List.all_eq_true, List.all_eq_true]
  refine forall₂_congr fun line hline => ?_
  rw [all_isChar_line (Element.Proper.layout 0 element hproper line hline)]

/-! ### Line ends -/

/-- The written form of a character that ends no line ends none. -/
theorem lineFeeds_escapeChar {c : Char} (hreturn : c ≠ '\r') (hfeed : c ≠ '\n') (returned : Bool)
    (text : List Char) :
    lineFeeds returned (XesLog.escapeChar c ++ text) =
      XesLog.escapeChar c ++ lineFeeds false text := by
  unfold XesLog.escapeChar
  split_ifs <;> simp [lineFeeds, hreturn, hfeed]

/-- The line ends of a value are those of its written form. The quotation mark behind it keeps
what comes then out of its last line end. -/
theorem lineFeeds_escape (returned : Bool) (value rest : List Char) :
    lineFeeds returned (value.flatMap XesLog.escapeChar ++ '"' :: rest) =
      (lineFeeds returned value).flatMap XesLog.escapeChar ++ '"' :: lineFeeds false rest := by
  have hwritten : XesLog.escapeChar '\n' = ['\n'] := rfl
  induction value generalizing returned with
  | nil => simp [lineFeeds]
  | cons c value ih =>
      rw [List.flatMap_cons, List.append_assoc, lineFeeds]
      split_ifs with hreturn hfeed
      · subst hreturn
        have hsame : XesLog.escapeChar '\r' = ['\r'] := rfl
        simp [lineFeeds, hsame, hwritten, ih]
      · obtain ⟨rfl, rfl⟩ := hfeed
        simp [lineFeeds, hwritten, ih]
      · by_cases hfeed' : c = '\n'
        · subst hfeed'
          simp_all [lineFeeds]
        · rw [lineFeeds_escapeChar hreturn hfeed', ih, List.flatMap_cons, List.append_assoc]

/-- Line ends are found item by item if no item ends with a carriage return. -/
theorem lineFeeds_flatMap {α : Type} (write : α → List Char) (read : α → α) (items : List α)
    (hitems : ∀ item ∈ items, ∀ rest,
      lineFeeds false (write item ++ rest) = write (read item) ++ lineFeeds false rest)
    (rest : List Char) :
    lineFeeds false (items.flatMap write ++ rest) =
      (items.map read).flatMap write ++ lineFeeds false rest := by
  induction items with
  | nil => rfl
  | cons item items ih =>
      obtain ⟨hitem, hitems⟩ := List.forall_mem_cons.mp hitems
      rw [List.flatMap_cons, List.append_assoc, hitem, ih hitems, List.map_cons,
        List.flatMap_cons, List.append_assoc]

theorem lineFeeds_attributeText {entry : String × String} (hname : isName entry.1)
    (rest : List Char) :
    lineFeeds false (attributeText entry ++ rest) =
      attributeText (Prod.map id withLineFeeds entry) ++ lineFeeds false rest := by
  have hfront : '\r' ∉ ' ' :: entry.1.toList ++ ['=', '"'] := by
    simpa using return_notMem_name hname
  have hvalue := lineFeeds_append hfront (entry.2.toList.flatMap XesLog.escapeChar ++ '"' :: rest)
  rw [lineFeeds_escape] at hvalue
  simpa [attributeText, withLineFeeds] using hvalue

theorem lineFeeds_attributesText {attributes : List (String × String)}
    (hnames : ∀ key ∈ attributes.map (·.1), isName key) (rest : List Char) :
    lineFeeds false (attributesText attributes ++ rest) =
      attributesText (attributes.map (Prod.map id withLineFeeds)) ++ lineFeeds false rest :=
  lineFeeds_flatMap attributeText _ attributes
    (fun entry hentry => lineFeeds_attributeText (hnames entry.1 (List.mem_map_of_mem hentry))) rest

theorem lineFeeds_tag {tag : Tag} (hproper : tag.Proper) (rest : List Char) :
    lineFeeds false (tag.text ++ rest) =
      (tag.mapValues withLineFeeds).text ++ lineFeeds false rest := by
  cases tag with
  | closing name =>
      refine lineFeeds_append ?_ rest
      simpa [Tag.text] using return_notMem_name hproper
  | opening name attributes | lone name attributes =>
      obtain ⟨hname, hnames, -⟩ := hproper
      have hfront : '\r' ∉ '<' :: name.toList := by simpa using return_notMem_name hname
      simp only [Tag.text, Tag.mapValues, List.append_assoc]
      rw [lineFeeds_append hfront, lineFeeds_attributesText hnames, lineFeeds_append (by decide)]

theorem lineFeeds_line {line : TagLine} (hproper : line.2.Proper) (rest : List Char) :
    lineFeeds false (line.text ++ rest) =
      (line.mapValues withLineFeeds).text ++ lineFeeds false rest := by
  have hblanks : '\r' ∉ List.replicate (2 * line.1) ' ' := by simp
  simp only [TagLine.text, TagLine.mapValues, List.append_assoc]
  rw [lineFeeds_append hblanks, lineFeeds_tag hproper, lineFeeds_append (by decide)]

theorem lineFeeds_lines {lines : List TagLine} (hproper : ∀ line ∈ lines, line.2.Proper) :
    lineFeeds false (lines.flatMap TagLine.text) =
      (lines.map (TagLine.mapValues withLineFeeds)).flatMap TagLine.text := by
  simpa [lineFeeds] using lineFeeds_flatMap TagLine.text (TagLine.mapValues withLineFeeds) lines
    (fun line hline => lineFeeds_line (hproper line hline)) []

/-! ### Tags -/

namespace Scanner

/-- Reading the text leads from one state of the scanner to the other. -/
def Leads (scanner : Scanner) (text : List Char) (after : Scanner) : Prop :=
  text.foldlM step scanner = some after

theorem Leads.append {scanner middle after : Scanner} {first second : List Char}
    (hfirst : Leads scanner first middle) (hsecond : Leads middle second after) :
    Leads scanner (first ++ second) after := by
  rw [Leads, List.foldlM_append, hfirst]
  exact hsecond

theorem Leads.cons {scanner middle after : Scanner} {c : Char} {text : List Char}
    (hstep : scanner.step c = some middle) (htext : Leads middle text after) :
    Leads scanner (c :: text) after := by
  rw [Leads, List.foldlM_cons, hstep]
  exact htext

/-- What is read item by item is put behind what was read before. -/
theorem leads_flatMap {α β : Type} (state : List β → Scanner) (write : α → List Char)
    (read : α → β) (items : List α)
    (hitems : ∀ before, ∀ item ∈ items,
      Leads (state before) (write item) (state (before ++ [read item])))
    (before : List β) :
    Leads (state before) (items.flatMap write) (state (before ++ items.map read)) := by
  induction items generalizing before with
  | nil => simp [Leads]
  | cons item items ih =>
      have hitem := hitems before item List.mem_cons_self
      have hrest := ih (fun before other hother => hitems before other (.tail _ hother))
        (before ++ [read item])
      rw [List.append_assoc] at hrest
      exact hitem.append hrest

/-- A name is read where a name may begin, up to its last character. -/
theorem leads_name (start : Scanner) (state : List Char → Scanner)
    (hfirst : ∀ c, beginsName c → start.step c = some (state [c]))
    (hrest : ∀ before c, isNamed c → (state before).step c = some (state (before ++ [c])))
    {name : String} (hname : isName name) : Leads start name.toList (state name.toList) := by
  obtain ⟨first, rest, htext, hbegins, hnamed⟩ := exists_cons_of_isName hname
  have hbehind := leads_flatMap state (fun c => [c]) id rest
    (fun before c hc => Leads.cons (hrest before c (hnamed c hc)) rfl) [first]
  rw [List.flatMap_singleton', List.map_id] at hbehind
  rw [htext]
  exact .cons (hfirst first hbegins) hbehind

/-- The written form of a character is read as the character, or as a blank for white space. -/
theorem leads_escapeChar (c : Char) {scanner : Scanner} (hplace : scanner.place = .value)
    (hmark : scanner.mark = '"') (hreference : scanner.reference = []) :
    Leads scanner (XesLog.escapeChar c) { scanner with value := scanner.value ++ [blank c] } := by
  obtain ⟨place, name, attributes, key, mark, value, reference, tags⟩ := scanner
  obtain rfl : place = .value := hplace
  obtain rfl : mark = '"' := hmark
  obtain rfl : reference = [] := hreference
  unfold XesLog.escapeChar
  split_ifs with hamp hless hgreater hquote happos
  · subst hamp
    rfl
  · subst hless
    rfl
  · subst hgreater
    rfl
  · subst hquote
    rfl
  · subst happos
    rfl
  · exact .cons (by simp [step, hamp, hless, hquote]) rfl

/-- Behind a name or an attribute, another attribute may follow. -/
theorem leads_attribute {place : Place} (hplace : place = .name ∨ place = .quoted)
    (name : List Char) {attributes : List (String × String)} (before : List Tag)
    {key : String} (hkey : isName key) (hfresh : key ∉ attributes.map (·.1)) (value : String) :
    Leads { place, name, attributes, tags := before } (attributeText (key, value))
      { place := .quoted, name, attributes := attributes ++ [(key, withBlanks value)],
        tags := before } := by
  have hblank : Leads { place, name, attributes, tags := before } [' ']
      { place := .spaced, name, attributes, tags := before } := by
    rcases hplace with rfl | rfl <;> rfl
  have hname : Leads { place := .spaced, name, attributes, tags := before } key.toList
      { place := .key, name, attributes, key := key.toList, tags := before } :=
    leads_name _ (fun key => { place := .key, name, attributes, key, tags := before })
      (fun c hc => by simp [step, hc]) (fun _ c hc => by simp [step, hc]) hkey
  have hassign : Leads { place := .key, name, attributes, key := key.toList, tags := before }
      ['=', '"'] { place := .value, name, attributes, key := key.toList, tags := before } := rfl
  have hvalue := leads_flatMap
    (fun value => { place := .value, name, attributes, key := key.toList, value, tags := before })
    XesLog.escapeChar blank value.toList (fun _ c _ => leads_escapeChar c rfl rfl rfl) []
  have hend : Leads
      { place := .value, name, attributes, key := key.toList, value := value.toList.map blank,
        tags := before } ['"']
      { place := .quoted, name, attributes := attributes ++ [(key, withBlanks value)],
        tags := before } := .cons (by simp [step, endValue, hfresh, withBlanks]) rfl
  simpa [attributeText] using
    (((hblank.append hname).append hassign).append hvalue).append hend

/-- The attributes of a tag are read up to the last one, each under a key of its own. -/
theorem leads_attributes {place : Place} (hplace : place = .name ∨ place = .quoted)
    (name : List Char) (before : List Tag) (done : List (String × String))
    {attributes : List (String × String)}
    (hnames : ∀ key ∈ attributes.map (·.1), isName key)
    (hkeys : ((done ++ attributes).map (·.1)).Nodup) :
    ∃ last, (last = .name ∨ last = .quoted) ∧
      Leads { place, name, attributes := done, tags := before } (attributesText attributes)
        { place := last, name, attributes := done ++ attributes.map (Prod.map id withBlanks),
          tags := before } := by
  induction attributes generalizing place done with
  | nil => exact ⟨place, hplace, by simp [Leads, attributesText]⟩
  | cons entry attributes ih =>
      obtain ⟨key, value⟩ := entry
      obtain ⟨hname, hnames⟩ := List.forall_mem_cons.mp hnames
      have hfresh : key ∉ done.map (·.1) := by
        rw [List.map_append, List.map_cons] at hkeys
        exact fun hmem => (List.nodup_append.mp hkeys).2.2 _ hmem _ List.mem_cons_self rfl
      have hentry := leads_attribute hplace name before hname hfresh value
      have hrest : ((done ++ [(key, withBlanks value)] ++ attributes).map (·.1)).Nodup := by
        simpa using hkeys
      obtain ⟨last, hlast, hleads⟩ := ih (.inr rfl) _ hnames hrest
      rw [List.append_assoc] at hleads
      exact ⟨last, hlast, hentry.append hleads⟩

/-- A tag is read from its bracket to its last attribute. -/
theorem leads_front (before : List Tag) {name : String} (hname : isName name)
    {attributes : List (String × String)} (hnames : ∀ key ∈ attributes.map (·.1), isName key)
    (hkeys : (attributes.map (·.1)).Nodup) :
    ∃ last, (last = .name ∨ last = .quoted) ∧
      Leads { tags := before } ('<' :: name.toList ++ attributesText attributes)
        { place := last, name := name.toList, attributes := attributes.map (Prod.map id withBlanks),
          tags := before } := by
  have hbracket : Leads { tags := before } ['<'] { place := .bracket, tags := before } := rfl
  have hslash : ¬ beginsName '/' := by decide
  have hbegin := leads_name { place := .bracket, tags := before }
    (fun name => { place := .name, name, tags := before })
    (fun c hc => by
      have hother : c ≠ '/' := fun hequal => hslash (hequal ▸ hc)
      simp [step, hc, hother])
    (fun _ c hc => by simp [step, hc]) hname
  obtain ⟨last, hlast, hattributes⟩ :=
    leads_attributes (.inl rfl) name.toList before [] hnames hkeys
  exact ⟨last, hlast, (hbracket.append hbegin).append hattributes⟩

/-- A tag ends behind its name or an attribute, with a slash or without one. -/
theorem leads_end {place : Place} (hplace : place = .name ∨ place = .quoted) (name : String)
    (attributes : List (String × String)) (before : List Tag) :
    Leads { place, name := name.toList, attributes, tags := before } ['>']
        { tags := before ++ [.opening name attributes] } ∧
      Leads { place, name := name.toList, attributes, tags := before } ['/', '>']
        { tags := before ++ [.lone name attributes] } := by
  have hname : String.ofList name.toList = name := String.ofList_toList
  rw [← hname, String.toList_ofList]
  rcases hplace with rfl | rfl <;> exact ⟨rfl, rfl⟩

/-- A printed tag is read as the tag, with blanks for the white space in its values. -/
theorem leads_tag (before : List Tag) {tag : Tag} (hproper : tag.Proper) :
    Leads { tags := before } tag.text { tags := before ++ [tag.mapValues withBlanks] } := by
  cases tag with
  | opening name attributes =>
      obtain ⟨hname, hnames, hkeys⟩ := hproper
      obtain ⟨last, hlast, hfront⟩ := leads_front before hname hnames hkeys
      exact hfront.append (leads_end hlast name _ before).1
  | lone name attributes =>
      obtain ⟨hname, hnames, hkeys⟩ := hproper
      obtain ⟨last, hlast, hfront⟩ := leads_front before hname hnames hkeys
      exact hfront.append (leads_end hlast name _ before).2
  | closing name =>
      have hbegin : Leads { tags := before } ['<', '/'] { place := .closing, tags := before } := rfl
      have hname := leads_name { place := .closing, tags := before }
        (fun name => { place := .ending, name, tags := before })
        (fun c hc => by simp [step, hc]) (fun _ c hc => by simp [step, hc]) hproper
      have hend : Leads { place := .ending, name := name.toList, tags := before } ['>']
          { tags := before ++ [.closing (String.ofList name.toList)] } := rfl
      rw [String.ofList_toList] at hend
      exact (hbegin.append hname).append hend

/-- Indentation and the line break belong to no tag. -/
theorem leads_line (before : List Tag) {line : TagLine} (hproper : line.2.Proper) :
    Leads { tags := before } line.text { tags := before ++ [line.2.mapValues withBlanks] } := by
  have hblanks : ∀ count, Leads { tags := before } (List.replicate count ' ') { tags := before } := by
    intro count
    induction count with
    | zero => rfl
    | succ count ih => exact .cons rfl ih
  have hbreak (tags : List Tag) : Leads { tags } ['\n'] { tags } := rfl
  exact ((hblanks _).append (leads_tag before hproper)).append (hbreak _)

end Scanner

/-- Printed lines are read as their tags, with blanks for the white space in their values. -/
theorem tagsOf?_lines {lines : List TagLine} (hproper : ∀ line ∈ lines, line.2.Proper) :
    tagsOf? (lines.flatMap TagLine.text) =
      some (lines.map fun line => line.2.mapValues withBlanks) := by
  have hleads := Scanner.leads_flatMap (fun tags => { tags }) TagLine.text
    (fun line => line.2.mapValues withBlanks) lines
    (fun before line hline => Scanner.leads_line before (hproper line hline)) []
  rw [List.nil_append] at hleads
  rw [tagsOf?, hleads]
  rfl

/-! ### Documents -/

/-- The declaration in front of an element. -/
def declaration : List Char := "<?xml version=\"1.0\" encoding=\"UTF-8\" ?>\n".toList

/-- A document that consists of an element. -/
def document (element : Element) : String := String.ofList (declaration ++ element.text)

theorem behindDeclaration?_declaration (text : List Char) :
    behindDeclaration? (declaration ++ text) = some ('\n' :: text) := by
  let inside := " version=\"1.0\" encoding=\"UTF-8\" ".toList
  have hsplit : splitDeclaration? (inside ++ '?' :: '>' :: '\n' :: text) =
      some (inside, '\n' :: text) := rfl
  have htag : tagsOf? ("<xml".toList ++ inside ++ "/>".toList) =
      some [.lone "xml" [("version", "1.0"), ("encoding", "UTF-8")]] := by decide +kernel
  have hdeclares :
      declares [("version", "1.0"), ("encoding", "UTF-8")] && !inside.contains '&' := by
    decide +kernel
  have hchars : declaration ++ text =
      '<' :: '?' :: 'x' :: 'm' :: 'l' :: (inside ++ '?' :: '>' :: '\n' :: text) := rfl
  rw [hchars, behindDeclaration?, hsplit]
  simp only [Option.bind_eq_bind, Option.bind_some, htag, hdeclares, if_true]

theorem proper_mapValues (f : String → String) {tag : Tag} (hproper : tag.Proper) :
    (tag.mapValues f).Proper := by
  cases tag with
  | closing name => exact hproper
  | opening name attributes | lone name attributes =>
      have hkeys : (attributes.map (Prod.map id f)).map (·.1) = attributes.map (·.1) :=
        List.map_map
      simpa only [Tag.mapValues, Tag.Proper, hkeys] using hproper

theorem mapValues_withLineFeeds (tag : Tag) :
    (tag.mapValues withLineFeeds).mapValues withBlanks = tag.mapValues attributeValue := by
  cases tag <;> simp [Tag.mapValues, attributeValue]

/-- A printed element is read as its tags, with its values as XML has them read. -/
theorem tagsOf?_lineFeeds_text {element : Element} (hproper : element.Proper) :
    tagsOf? (lineFeeds false element.text) =
      some (((element.mapValues attributeValue).layout 0).map (·.2)) := by
  have hlines := Element.Proper.layout 0 element hproper
  rw [Element.text, lineFeeds_lines hlines, tagsOf?_lines, Element.layout_mapValues]
  · simp [TagLine.mapValues, mapValues_withLineFeeds]
  · rw [List.forall_mem_map]
    exact fun line hline => proper_mapValues withLineFeeds (hlines line hline)

/-- A document of an element is read if documents may have the characters of the attribute values
in it. The values are read as XML has them read. -/
theorem ofText?_document {element : Element} (hproper : element.Proper) :
    ofText? (document element) =
      if ∀ value ∈ element.values, value.toList.all isChar then
        some (element.mapValues attributeValue)
      else none := by
  have hchars : (document element).toList.all isChar ↔
      ∀ value ∈ element.values, value.toList.all isChar := by
    have hdeclaration : declaration.all isChar := by decide
    rw [document, String.toList_ofList, List.all_append, hdeclaration, all_isChar_text hproper,
      Bool.true_and, List.all_eq_true]
  have hfeeds : lineFeeds false (document element).toList =
      declaration ++ lineFeeds false element.text := by
    rw [document, String.toList_ofList, lineFeeds_append (by decide)]
  have hbreak (text : List Char) : tagsOf? ('\n' :: text) = tagsOf? text := rfl
  have hbuilt := Element.builds_layout 0 (element.mapValues attributeValue) {}
  simp only [ofText?, hchars, hfeeds, behindDeclaration?_declaration, hbreak,
    tagsOf?_lineFeeds_text hproper, Option.bind_eq_bind, Option.bind_some, hbuilt]
  rfl

end Xml

end ChainExtract
