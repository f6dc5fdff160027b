import ChainExtract.Proofs.Export.Markup
import ChainExtract.Text.Numeral

/-! # XML documents

A reader of XML 1.0 documents that consist of elements with attributes: after the declaration
come nested elements with nothing but white space between their tags. It takes the characters,
names, references and line ends that XML has, and reads the value of an attribute as XML has it
read. Document types, comments, processing instructions and sections of character data are not
among the documents that it takes.
-/

namespace ChainExtract.Xml

/-- Whether the code of a character lies in one of several ranges. -/
def within (ranges : List (Nat × Nat)) (c : Char) : Bool :=
  ranges.any fun (low, high) => low ≤ c.toNat && c.toNat ≤ high

/-- Whether a document may have a character. -/
def isChar : Char → Bool :=
  within [(0x9, 0xA), (0xD, 0xD), (0x20, 0xD7FF), (0xE000, 0xFFFD), (0x10000, 0x10FFFF)]

/-- Whether a name may begin with a character. -/
def beginsName : Char → Bool :=
  within [(0x3A, 0x3A), (0x41, 0x5A), (0x5F, 0x5F), (0x61, 0x7A), (0xC0, 0xD6), (0xD8, 0xF6),
    (0xF8, 0x2FF), (0x370, 0x37D), (0x37F, 0x1FFF), (0x200C, 0x200D), (0x2070, 0x218F),
    (0x2C00, 0x2FEF), (0x3001, 0xD7FF), (0xF900, 0xFDCF), (0xFDF0, 0xFFFD), (0x10000, 0xEFFFF)]

/-- Whether a character may stand in a name. -/
def isNamed (c : Char) : Bool :=
  beginsName c ||
    within [(0x2D, 0x2E), (0x30, 0x39), (0xB7, 0xB7), (0x300, 0x36F), (0x203F, 0x2040)] c

/-- Whether a text is a name. -/
def isName (text : String) : Bool :=
  match text.toList with
  | [] => false
  | c :: rest => beginsName c && rest.all isNamed

/-! ### Line ends -/

/-- The characters with a line feed for every line end, behind a carriage return or not. A line
feed that comes directly after a carriage return belongs to the same line end. -/
def lineFeeds (returned : Bool) : List Char → List Char
  | [] => []
  | c :: text =>
    if c = '\r' then '\n' :: lineFeeds true text
    else if c = '\n' ∧ returned then lineFeeds false text
    else c :: lineFeeds false text

def withLineFeeds (text : String) : String := String.ofList (lineFeeds false text.toList)

/-- A character of an attribute value as it is read, unless a reference stands for it. -/
def blank (c : Char) : Char := if c.isWhitespace then ' ' else c

def withBlanks (text : String) : String := String.ofList (text.toList.map blank)

/-- What an attribute value is read as that has no references: every line end, and all other white
space, is a blank. -/
def attributeValue (text : String) : String := withBlanks (withLineFeeds text)

theorem blank_ne (c : Char) : blank c ≠ '\t' ∧ blank c ≠ '\n' ∧ blank c ≠ '\r' := by
  unfold blank
  split
  · decide
  next hother =>
    refine ⟨?_, ?_, ?_⟩ <;> exact fun hequal => hother (hequal ▸ rfl)

theorem blank_of_ne {c : Char} (hc : c ≠ '\t' ∧ c ≠ '\n' ∧ c ≠ '\r') : blank c = c := by
  unfold blank
  split
  next hspace =>
    simp only [Char.isWhitespace, Bool.or_eq_true, decide_eq_true_eq] at hspace
    tauto
  next => rfl

theorem lineFeeds_append {first : List Char} (hfirst : '\r' ∉ first) (second : List Char) :
    lineFeeds false (first ++ second) = first ++ lineFeeds false second := by
  induction first with
  | nil => rfl
  | cons c first ih =>
      rw [List.mem_cons, not_or] at hfirst
      simp [lineFeeds, Ne.symm hfirst.1, ih hfirst.2]

theorem lineFeeds_of_notMem {text : List Char} (htext : '\r' ∉ text) :
    lineFeeds false text = text := by
  simpa [lineFeeds] using lineFeeds_append htext []

/-- An attribute value without references is read as it stands if it has no white space but
blanks. -/
theorem attributeValue_eq_self_iff (text : String) :
    attributeValue text = text ↔ ∀ c ∈ text.toList, c ≠ '\t' ∧ c ≠ '\n' ∧ c ≠ '\r' := by
  rw [← String.toList_inj, attributeValue, withBlanks, withLineFeeds, String.toList_ofList,
    String.toList_ofList]
  constructor
  · intro hsame c hc
    rw [← hsame] at hc
    obtain ⟨read, -, rfl⟩ := List.mem_map.mp hc
    exact blank_ne read
  · intro htext
    rw [lineFeeds_of_notMem fun hmem => (htext _ hmem).2.2 rfl]
    exact (List.map_congr_left fun c hc => blank_of_ne (htext c hc)).trans (List.map_id _)

example : attributeValue "one\ttwo\r\nthree" = "one two three" := by decide +kernel

/-! ### Tags -/

/-- The character of a code, if documents may have it. -/
def ofCode? (code : Nat) : Option Char :=
  if code.isValidChar ∧ isChar (Char.ofNat code) then some (Char.ofNat code) else none

/-- The character that a reference stands for, by its code or its name. -/
def ofReference? : List Char → Option Char
  | '#' :: 'x' :: digits => Numeral.ofDigits? 16 digits >>= ofCode?
  | '#' :: digits => Numeral.ofDigits? 10 digits >>= ofCode?
  | name => Lexer.ofEntity? name

/-- Where a scanner stands in a document. -/
inductive Place where
  | between
  /-- Behind the bracket with which a tag begins. -/
  | bracket
  | name
  /-- Behind white space in a tag, where an attribute may begin. -/
  | spaced
  | key
  /-- Behind white space in front of an equals sign. -/
  | keyed
  /-- Behind the equals sign, in front of the value. -/
  | assigned
  | value
  | reference
  /-- Behind the value of an attribute. -/
  | quoted
  /-- Behind the slash with which a tag of an element without content ends. -/
  | slashed
  /-- Behind the slash with which a tag that ends an element begins. -/
  | closing
  | ending
  /-- Behind the name of an element that ends. -/
  | ended
deriving DecidableEq, Repr

/-- A scanner of tags: its place, the parts of the tag that it is in, and the tags before it. -/
structure Scanner where
  place : Place := .between
  name : List Char := []
  attributes : List (String × String) := []
  key : List Char := []
  /-- The quotation mark with which the value began. -/
  mark : Char := '"'
  value : List Char := []
  reference : List Char := []
  tags : List Tag := []
deriving DecidableEq, Repr

namespace Scanner

/-- Puts a tag behind those before it. -/
def emit (scanner : Scanner) (tag : Tag) : Scanner := { tags := scanner.tags ++ [tag] }

/-- Goes on in a tag, behind its name or an attribute. -/
def proceed (scanner : Scanner) (c : Char) : Option Scanner :=
  if c.isWhitespace then some { scanner with place := .spaced }
  else if c = '>' then some (scanner.emit (.opening (String.ofList scanner.name) scanner.attributes))
  else if c = '/' then some { scanner with place := .slashed }
  else none

/-- Ends the value of an attribute. A tag has one attribute of a name only. -/
def endValue (scanner : Scanner) : Option Scanner :=
  let key := String.ofList scanner.key
  if key ∈ scanner.attributes.map (·.1) then none
  else
    some { scanner with
      place := .quoted
      attributes := scanner.attributes ++ [(key, String.ofList scanner.value)]
      key := []
      value := [] }

/-- Reads a character, if it may stand where the scanner is. -/
def step (scanner : Scanner) (c : Char) : Option Scanner :=
  match scanner.place with
  | .between =>
    if c.isWhitespace then some scanner
    else if c = '<' then some { scanner with place := .bracket }
    else none
  | .bracket =>
    if c = '/' then some { scanner with place := .closing }
    else if beginsName c then some { scanner with place := .name, name := [c] }
    else none
  | .name =>
    if isNamed c then some { scanner with name := scanner.name ++ [c] } else scanner.proceed c
  | .spaced =>
    if beginsName c then some { scanner with place := .key, key := [c] } else scanner.proceed c
  | .key =>
    if isNamed c then some { scanner with key := scanner.key ++ [c] }
    else if c.isWhitespace then some { scanner with place := .keyed }
    else if c = '=' then some { scanner with place := .assigned }
    else none
  | .keyed =>
    if c.isWhitespace then some scanner
    else if c = '=' then some { scanner with place := .assigned }
    else none
  | .assigned =>
    if c.isWhitespace then some scanner
    else if c = '"' ∨ c = XesLog.apostrophe then some { scanner with place := .value, mark := c }
    else none
  | .value =>
    if c = scanner.mark then scanner.endValue
    else if c = '&' then some { scanner with place := .reference }
    else if c = '<' then none
    else some { scanner with value := scanner.value ++ [blank c] }
  | .reference =>
    if c = ';' then
      (ofReference? scanner.reference).map fun named =>
        { scanner with place := .value, value := scanner.value ++ [named], reference := [] }
    else some { scanner with reference := scanner.reference ++ [c] }
  | .quoted => scanner.proceed c
  | .slashed =>
    if c = '>' then some (scanner.emit (.lone (String.ofList scanner.name) scanner.attributes))
    else none
  | .closing =>
    if beginsName c then some { scanner with place := .ending, name := [c] } else none
  | .ending =>
    if isNamed c then some { scanner with name := scanner.name ++ [c] }
    else if c.isWhitespace then some { scanner with place := .ended }
    else if c = '>' then some (scanner.emit (.closing (String.ofList scanner.name)))
    else none
  | .ended =>
    if c.isWhitespace then some scanner
    else if c = '>' then some (scanner.emit (.closing (String.ofList scanner.name)))
    else none

end Scanner

/-- The tags of a text that has nothing but white space between them. -/
def tagsOf? (text : List Char) : Option (List Tag) :=
  (text.foldlM Scanner.step {}).bind fun scanner =>
    if scanner.place = .between then some scanner.tags else none

/-! ### Documents -/

/-- Whether a text is a version of XML 1. -/
def isVersion (text : String) : Bool :=
  match text.toList with
  | '1' :: '.' :: digits => !digits.isEmpty && digits.all Char.isDigit
  | _ => false

/-- Whether a text names the encoding that documents are written in. -/
def isEncoding (text : String) : Bool := text.toList.map Char.toLower == "utf-8".toList

/-- Whether a declaration may have these attributes. -/
def declares : List (String × String) → Bool
  | [("version", version)] => isVersion version
  | [("version", version), ("encoding", encoding)] => isVersion version && isEncoding encoding
  | [("version", version), ("standalone", alone)] =>
    isVersion version && (alone == "yes" || alone == "no")
  | [("version", version), ("encoding", encoding), ("standalone", alone)] =>
    isVersion version && isEncoding encoding && (alone == "yes" || alone == "no")
  | _ => false

/-- The text in front of the next end of a declaration, and the text behind it. -/
def splitDeclaration? : List Char → Option (List Char × List Char)
  | '?' :: '>' :: rest => some ([], rest)
  | c :: rest => (splitDeclaration? rest).map fun (front, rest) => (c :: front, rest)
  | [] => none

/-- The text behind the declaration of a document, which may be missing. A declaration has the
form of a tag with attributes, but no references in their values. -/
def behindDeclaration? : List Char → Option (List Char)
  | '<' :: '?' :: 'x' :: 'm' :: 'l' :: rest => do
    let (inside, rest) ← splitDeclaration? rest
    match tagsOf? ("<xml".toList ++ inside ++ "/>".toList) with
    | some [.lone "xml" attributes] =>
      if declares attributes && !inside.contains '&' then some rest else none
    | _ => none
  | text => some text

/-- The element that a document consists of. -/
def ofText? (text : String) : Option Element :=
  if text.toList.all isChar then do
    let tags ← tagsOf? (← behindDeclaration? (lineFeeds false text.toList))
    match ← tags.foldlM Builder.step {} with
    | ⟨[root], []⟩ => some root
    | _ => none
  else none

end ChainExtract.Xml
