import ChainExtract.Proofs.Export.Xml.Logs
import ChainExtract.Proofs.Numerals

/-! # The texts of event logs in XML

What a reader of XML finds of the ids, keys and texts in the document of an event log. All other
values of attributes are printable, and read as they are written.
-/

namespace ChainExtract

namespace Xml

/-- Whether a character is printable and one of the first 128. -/
def isPrintable : Char → Bool := within [(0x20, 0x7E)]

theorem isChar_of_isPrintable {c : Char} (hc : isPrintable c) : isChar c := by
  simp [isPrintable, within] at hc
  simp [isChar, within]
  omega

/-- All printable texts have a property. -/
def HoldsPrintable (P : String → Prop) : Prop := ∀ text, text.toList.all isPrintable → P text

/-- Printable texts are kept. -/
def KeepsPrintable (f : String → String) : Prop := HoldsPrintable fun text => f text = text

theorem holdsPrintable_isChar : HoldsPrintable fun text => text.toList.all isChar :=
  fun _ htext => List.all_eq_true.mpr fun c hc =>
    isChar_of_isPrintable (List.all_eq_true.mp htext c hc)

/-- Printable texts are read as they are written. -/
theorem keepsPrintable_attributeValue : KeepsPrintable attributeValue := by
  intro text htext
  rw [attributeValue_eq_self_iff]
  intro c hc
  have hprintable := List.all_eq_true.mp htext c hc
  refine ⟨?_, ?_, ?_⟩ <;> exact fun hequal => absurd (hequal ▸ hprintable) (by decide)

/-! ### Numbers and dates -/

theorem isPrintable_digits (n : Nat) : (Numeral.digits 10 n).all isPrintable := by
  have hdigits : ∀ digit < 10, isPrintable (Numeral.digitChar digit) := by decide
  rw [List.all_eq_true]
  intro c hc
  rcases Numeral.mem_digitsOnto hc with hnil | ⟨digit, hdigit, rfl⟩
  · cases hnil
  · exact hdigits digit hdigit

theorem isPrintable_zeros (count : Nat) : (List.replicate count '0').all isPrintable := by
  rw [List.all_eq_true]
  exact fun c hc => List.eq_of_mem_replicate hc ▸ rfl

theorem isPrintable_decimal (n : Int) : (Numeral.decimal n).toList.all isPrintable := by
  rw [Numeral.toList_decimal_eq, List.all_append, isPrintable_digits, Bool.and_true]
  split <;> rfl

theorem isPrintable_padded (width n : Nat) : (Instant.padded width n).all isPrintable := by
  rw [Instant.padded, List.all_append, isPrintable_zeros, isPrintable_digits]
  rfl

theorem isPrintable_yearText (year : Int) : (Instant.yearText year).all isPrintable := by
  have hdigits := isPrintable_padded 4 year.natAbs
  unfold Instant.yearText
  split_ifs <;> simpa [isPrintable, within] using hdigits

theorem isPrintable_instant (instant : Instant) : instant.text.toList.all isPrintable := by
  have hmark : ".000Z".toList.all isPrintable := by decide
  have hdash : isPrintable '-' := rfl
  have hcolon : isPrintable ':' := rfl
  have htime : isPrintable 'T' := rfl
  simp only [Instant.text, String.toList_ofList, List.all_append, List.all_cons,
    isPrintable_yearText, isPrintable_padded, hmark, hdash, hcolon, htime, Bool.and_self]

theorem isPrintable_positional (decimal : Shortest.Decimal) :
    decimal.positional.all isPrintable := by
  have hdigits := isPrintable_digits decimal.digits
  have hpoint : isPrintable '.' := rfl
  have hzero : isPrintable '0' := rfl
  have htake (count : Nat) := List.all_eq_true.mpr fun c hc =>
    List.all_eq_true.mp hdigits c (List.mem_of_mem_take (i := count) hc)
  have hdrop (count : Nat) := List.all_eq_true.mpr fun c hc =>
    List.all_eq_true.mp hdigits c (List.mem_of_mem_drop (i := count) hc)
  simp only [Shortest.Decimal.positional]
  split_ifs <;>
    simp only [List.all_append, List.all_cons, hdigits, isPrintable_zeros, hpoint, hzero, htake,
      hdrop, Bool.and_self]

theorem isPrintable_binary64 (number : Binary64) : number.text.toList.all isPrintable := by
  have hdash : isPrintable '-' := rfl
  cases number with
  | nan => decide
  | infinite negative => cases negative <;> decide
  | finite negative mantissa exponent =>
      have hbody : (if mantissa = 0 then ['0'] else
          (Shortest.decimal .up mantissa exponent).positional).all isPrintable := by
        split
        · rfl
        · exact isPrintable_positional _
      cases negative <;> simpa [Binary64.text, hdash] using hbody

end Xml

namespace XesValue

mutual

/-- The texts in a value. -/
def texts : XesValue → List String
  | .string text => [text]
  | .list items => textsAll items
  | .boolean _ | .date _ | .float _ | .int _ => []

def textsAll : List XesValue → List String
  | [] => []
  | item :: items => texts item ++ textsAll items

end

mutual

/-- The value with other texts. -/
def mapTexts (f : String → String) : XesValue → XesValue
  | .string text => .string (f text)
  | .list items => .list (mapTextsAll f items)
  | .boolean value => .boolean value
  | .date value => .date value
  | .float value => .float value
  | .int value => .int value

def mapTextsAll (f : String → String) : List XesValue → List XesValue
  | [] => []
  | item :: items => mapTexts f item :: mapTextsAll f items

end

open Xml

/-- Booleans, dates and numbers have printable forms. -/
theorem isPrintable_text : ∀ value : XesValue, value.texts = [] → value.text.toList.all isPrintable
  | .boolean true, _ | .boolean false, _ => by decide
  | .list _, _ => rfl
  | .date value, _ => isPrintable_instant value
  | .float value, _ => isPrintable_binary64 value
  | .int value, _ => isPrintable_decimal value

section

variable {P : String → Prop}

theorem forall_values_printable (hprintable : HoldsPrintable P) {key : String}
    {value : XesValue} (hnone : value.texts = [])
    (helement : value.element key = .mk value.tag [("key", key), ("value", value.text)] []) :
    (∀ text ∈ (value.element key).values, P text) ↔ P key ∧ ∀ text ∈ value.texts, P text := by
  have hwritten : P value.text := hprintable _ (isPrintable_text value hnone)
  simp [helement, hnone, Element.values, Element.valuesAll, hwritten]

mutual

/-- The values in the element of an attribute are its key, its texts, and printable ones. -/
theorem forall_values_element_iff (hprintable : HoldsPrintable P) (key : String) :
    ∀ value : XesValue,
      (∀ text ∈ (value.element key).values, P text) ↔ P key ∧ ∀ text ∈ value.texts, P text
  | .list items => by
      have hitems := and_congr_right (forall_values_elements_iff hprintable key items)
      simpa [element, Element.values, Element.valuesAll, texts] using hitems
  | .string text => by simp [element, Element.values, Element.valuesAll, texts, XesValue.text]
  | .boolean _ | .date _ | .float _ | .int _ => forall_values_printable hprintable rfl rfl

theorem forall_values_elements_iff (hprintable : HoldsPrintable P) (key : String) :
    ∀ items : List XesValue, P key →
      ((∀ text ∈ Element.valuesAll (elements key items), P text) ↔
        ∀ text ∈ textsAll items, P text)
  | [], _ => by simp [elements, Element.valuesAll, textsAll]
  | item :: items, hkey => by
      have hitem := forall_values_element_iff hprintable key item
      have hitems := forall_values_elements_iff hprintable key items hkey
      rw [elements, Element.valuesAll, textsAll, List.forall_mem_append, List.forall_mem_append,
        hitem, hitems, and_iff_right hkey]

end

end

section

variable {f : String → String}

theorem element_mapTexts_printable (hprintable : KeepsPrintable f) {key : String}
    {value : XesValue} (hnone : value.texts = [])
    (helement : ∀ key, value.element key = .mk value.tag [("key", key), ("value", value.text)] []) :
    value.element (f key) = (value.element key).mapValues f := by
  have hwritten : f value.text = value.text := hprintable _ (isPrintable_text value hnone)
  simp [helement, Element.mapValues, Element.mapValuesAll, hwritten]

mutual

/-- The element of a value with other texts has these as its values. -/
theorem element_mapTexts (hprintable : KeepsPrintable f) (key : String) :
    ∀ value : XesValue,
      (value.mapTexts f).element (f key) = (value.element key).mapValues f
  | .list items => by
      simp [mapTexts, element, Element.mapValues, Element.mapValuesAll,
        elements_mapTextsAll hprintable key items]
  | .string text => by
      simp [mapTexts, element, Element.mapValues, Element.mapValuesAll, XesValue.text, tag]
  | .boolean _ | .date _ | .float _ | .int _ =>
      element_mapTexts_printable hprintable rfl fun _ => rfl

theorem elements_mapTextsAll (hprintable : KeepsPrintable f) (key : String) :
    ∀ items : List XesValue,
      elements (f key) (mapTextsAll f items) = Element.mapValuesAll f (elements key items)
  | [] => rfl
  | item :: items => by
      rw [mapTextsAll, elements, elements, Element.mapValuesAll,
        element_mapTexts hprintable key item, elements_mapTextsAll hprintable key items]

end

end

mutual

/-- A value is shown as it was if its texts are kept. -/
theorem shown_mapTexts_eq_iff (f : String → String) : ∀ value : XesValue,
    (value.mapTexts f).shown = value.shown ↔ ∀ text ∈ value.texts, f text = text
  | .list items => by
      simpa [mapTexts, shown, texts] using shownAll_mapTextsAll_eq_iff f items
  | .string text => by simp [mapTexts, shown, texts, XesValue.text, tag]
  | .boolean _ | .date _ | .float _ | .int _ => by simp [mapTexts, texts]

theorem shownAll_mapTextsAll_eq_iff (f : String → String) : ∀ items : List XesValue,
    shownAll (mapTextsAll f items) = shownAll items ↔ ∀ text ∈ textsAll items, f text = text
  | [] => by simp [mapTextsAll, textsAll]
  | item :: items => by
      rw [mapTextsAll, shownAll, shownAll, textsAll, List.cons.injEq, List.forall_mem_append,
        shown_mapTexts_eq_iff f item, shownAll_mapTextsAll_eq_iff f items]

end

end XesValue

namespace XesLog

open Xml

def settingTexts (setting : String × XesValue) : List String := setting.1 :: setting.2.texts

def eventTexts (event : String × XesEvent) : List String :=
  event.1 :: event.2.flatMap settingTexts

def traceTexts (trace : String × XesTrace) : List String :=
  trace.1 :: trace.2.flatMap eventTexts

/-- The ids, keys and texts in a log. -/
def texts (log : XesLog) : List String := log.flatMap traceTexts

def mapSetting (f : String → String) (setting : String × XesValue) : String × XesValue :=
  (f setting.1, setting.2.mapTexts f)

def mapEvent (f : String → String) (event : String × XesEvent) : String × XesEvent :=
  (f event.1, event.2.map (mapSetting f))

def mapTrace (f : String → String) (trace : String × XesTrace) : String × XesTrace :=
  (f trace.1, trace.2.map (mapEvent f))

/-- The log with other ids, keys and texts. -/
def mapTexts (f : String → String) (log : XesLog) : XesLog := log.map (mapTrace f)

section

variable {α : Type} {P : String → Prop}

/-- The values in an element of several are the id of the group and those in the elements. -/
theorem forall_values_group_iff (name : String) {key : String} (hkey : P key) (id : String)
    (items : List α) {element : α → Element} {textsOf : α → List String}
    (hitems : ∀ item, (∀ text ∈ (element item).values, P text) ↔ ∀ text ∈ textsOf item, P text) :
    (∀ text ∈ (Element.mk name [] ((XesValue.string id).element key :: items.map element)).values,
        P text) ↔
      ∀ text ∈ id :: items.flatMap textsOf, P text := by
  simp only [Element.values, Element.valuesAll, Element.valuesAll_eq_flatMap, XesValue.element,
    XesValue.text, List.map_cons, List.map_nil, List.nil_append, List.append_nil, List.cons_append,
    List.forall_mem_cons, hkey, true_and, List.flatMap_map, List.forall_mem_flatMap, hitems]

theorem forall_values_eventElement_iff (hprintable : HoldsPrintable P)
    (event : String × XesEvent) :
    (∀ text ∈ (eventElement event).values, P text) ↔ ∀ text ∈ eventTexts event, P text := by
  have hid : P "identity:id" := hprintable _ (by decide +kernel)
  refine forall_values_group_iff "event" hid event.1 event.2 fun setting => ?_
  rw [XesValue.forall_values_element_iff hprintable, settingTexts, List.forall_mem_cons]

theorem forall_values_traceElement_iff (hprintable : HoldsPrintable P)
    (trace : String × XesTrace) :
    (∀ text ∈ (traceElement trace).values, P text) ↔ ∀ text ∈ traceTexts trace, P text := by
  have hid : P "concept:name" := hprintable _ (by decide +kernel)
  exact forall_values_group_iff "trace" hid trace.1 trace.2
    (forall_values_eventElement_iff hprintable)

theorem forall_header_values (hprintable : HoldsPrintable P) :
    ∀ text ∈ logAttributes.map (·.2) ++ extensions.flatMap Element.values, P text := by
  have hheader : ∀ text ∈ logAttributes.map (·.2) ++ extensions.flatMap Element.values,
      text.toList.all isPrintable := by decide +kernel
  exact fun text htext => hprintable text (hheader text htext)

/-- The values in the element of a log are its ids, keys and texts, and printable ones. -/
theorem forall_values_element_iff (hprintable : HoldsPrintable P) (log : XesLog) :
    (∀ text ∈ log.element.values, P text) ↔ ∀ text ∈ log.texts, P text := by
  have hheader := forall_header_values hprintable
  rw [element, Element.values, Element.valuesAll_eq_flatMap, List.flatMap_append,
    ← List.append_assoc, List.forall_mem_append, and_iff_right hheader, texts, List.flatMap_map,
    List.forall_mem_flatMap, List.forall_mem_flatMap]
  exact forall₂_congr fun trace _ => forall_values_traceElement_iff hprintable trace

end

section

variable {α : Type} {f : String → String}

theorem mapValues_group (name : String) {key : String} (hkey : f key = key) (id : String)
    (items : List α) {element : α → Element} {map : α → α}
    (hitems : ∀ item, element (map item) = (element item).mapValues f) :
    Element.mk name [] ((XesValue.string (f id)).element key :: (items.map map).map element) =
      (Element.mk name [] ((XesValue.string id).element key :: items.map element)).mapValues f := by
  simp [Element.mapValues, Element.mapValuesAll, Element.mapValuesAll_eq_map, XesValue.element,
    XesValue.text, XesValue.tag, hkey, hitems]

theorem eventElement_mapEvent (hprintable : KeepsPrintable f) (event : String × XesEvent) :
    eventElement (mapEvent f event) = (eventElement event).mapValues f := by
  have hid : f "identity:id" = "identity:id" := hprintable _ (by decide +kernel)
  exact mapValues_group "event" hid event.1 event.2 fun setting =>
    XesValue.element_mapTexts hprintable setting.1 setting.2

theorem traceElement_mapTrace (hprintable : KeepsPrintable f) (trace : String × XesTrace) :
    traceElement (mapTrace f trace) = (traceElement trace).mapValues f := by
  have hid : f "concept:name" = "concept:name" := hprintable _ (by decide +kernel)
  exact mapValues_group "trace" hid trace.1 trace.2 (eventElement_mapEvent hprintable)

/-- The element of a log with other texts has these as its values. -/
theorem element_mapTexts (hprintable : KeepsPrintable f) (log : XesLog) :
    (log.mapTexts f).element = log.element.mapValues f := by
  have hheader := forall_header_values hprintable
  simp only [logAttributes, extensions, extension, Element.values, Element.valuesAll,
    List.map_cons, List.map_nil, List.flatMap_cons, List.flatMap_nil, List.append_nil,
    List.cons_append, List.nil_append, List.forall_mem_cons] at hheader
  simp [element, mapTexts, Element.mapValues, Element.mapValuesAll_eq_map, logAttributes,
    extensions, extension, traceElement_mapTrace hprintable, hheader]

end

section

variable {α β : Type} {f : String → String}

theorem map_shown_eq_iff (items : List α) {map : α → α} {shownOf : α → β}
    {textsOf : α → List String}
    (hitems : ∀ item, shownOf (map item) = shownOf item ↔ ∀ text ∈ textsOf item, f text = text) :
    (items.map map).map shownOf = items.map shownOf ↔
      ∀ text ∈ items.flatMap textsOf, f text = text := by
  rw [List.map_map, List.map_inj_left, List.forall_mem_flatMap]
  exact forall₂_congr fun item _ => hitems item

theorem shownEvent_mapEvent_eq_iff (event : String × XesEvent) :
    shownEvent (mapEvent f event) = shownEvent event ↔
      ∀ text ∈ eventTexts event, f text = text := by
  rw [shownEvent, shownEvent, eventTexts, Prod.mk.injEq, List.forall_mem_cons]
  refine and_congr_right' (map_shown_eq_iff event.2 fun setting => ?_)
  rw [mapSetting, settingTexts, Prod.mk.injEq, List.forall_mem_cons,
    XesValue.shown_mapTexts_eq_iff]

theorem shownTrace_mapTrace_eq_iff (trace : String × XesTrace) :
    shownTrace (mapTrace f trace) = shownTrace trace ↔
      ∀ text ∈ traceTexts trace, f text = text := by
  rw [shownTrace, shownTrace, traceTexts, Prod.mk.injEq, List.forall_mem_cons]
  exact and_congr_right' (map_shown_eq_iff trace.2 shownEvent_mapEvent_eq_iff)

/-- A log is shown as it was if its ids, keys and texts are kept. -/
theorem shown_mapTexts_eq_iff (log : XesLog) :
    (log.mapTexts f).shown = log.shown ↔ ∀ text ∈ log.texts, f text = text :=
  map_shown_eq_iff log shownTrace_mapTrace_eq_iff

end

/-- The document of a log is one of XML if documents may have the characters of its ids, keys and
texts. It has these as XML has attribute values read, and all else as it was. -/
theorem ofText?_render_eq (log : XesLog) :
    ofText? log.render =
      if ∀ text ∈ log.texts, text.toList.all isChar then
        some (log.mapTexts attributeValue).element
      else none := by
  have hvalues := forall_values_element_iff holdsPrintable_isChar log
  rw [render_eq_document, ofText?_document (proper_element log),
    element_mapTexts keepsPrintable_attributeValue]
  simp only [hvalues]

end XesLog

namespace XesRecord

open Xml

/-- The document of records is one of XML if and only if documents may have all characters of
their ids, keys and texts. A reader of it then finds the records with every id, key and text as
XML has attribute values read, with a blank for every line end and all other white space. So it
finds just these records if and only if they have no such white space and no character that
documents may not have. -/
theorem keeps_texts_iff (records : List XesRecord) :
    let document := (records.foldl XesLog.add []).render
    let log := log records
    ((ofText? document).isSome ↔ ∀ text ∈ log.texts, ∀ c ∈ text.toList, isChar c) ∧
      (∀ root, ofText? document = some root →
        root.log? = some (log.mapTexts attributeValue).shown) ∧
      ((ofText? document).bind Element.log? = some log.shown ↔
        ∀ text ∈ log.texts, ∀ c ∈ text.toList,
          isChar c ∧ c ≠ '\t' ∧ c ≠ '\n' ∧ c ≠ '\r') := by
  intro document log
  have hdocument : document = log.render := congrArg XesLog.render (foldl_add records)
  have hread := log.ofText?_render_eq
  rw [← hdocument] at hread
  have hchars : (∀ text ∈ log.texts, text.toList.all isChar) ↔
      ∀ text ∈ log.texts, ∀ c ∈ text.toList, isChar c := by
    simp only [List.all_eq_true]
  refine ⟨by simp [hread], ?_, ?_⟩
  · intro root hroot
    rw [hread, Option.ite_none_right_eq_some] at hroot
    obtain ⟨-, hroot⟩ := hroot
    rw [← Option.some.inj hroot]
    exact XesLog.log?_element _
  · have hsame := log.shown_mapTexts_eq_iff (f := attributeValue)
    simp only [attributeValue_eq_self_iff] at hsame
    by_cases hall : ∀ text ∈ log.texts, text.toList.all isChar
    · rw [hread, if_pos hall, Option.bind_some, XesLog.log?_element, Option.some.injEq, hsame]
      exact forall₂_congr fun text htext => forall₂_congr fun c hc =>
        (and_iff_right (hchars.mp hall text htext c hc)).symm
    · rw [hread, if_neg hall]
      exact iff_of_false nofun fun hplain =>
        hall (hchars.mpr fun text htext c hc => (hplain text htext c hc).1)

/-- A record with a text. -/
def ofString (text : String) : XesRecord := ⟨"trace", "event", [("text", .string text)]⟩

theorem texts_ofString (text : String) :
    (log [ofString text]).texts = ["trace", "event", "text", text] := rfl

theorem shown_ofString (text : String) : (log [ofString text]).shown =
    [("trace", [("event", [("text", .scalar "string" text)])])] := rfl

/-- A text of two lines is read as one line, and one with a control character makes the document
unreadable. -/
theorem texts_not_kept :
    (ofText? ([ofString "two\nlines"].foldl XesLog.add []).render).bind Element.log? =
        some (log [ofString "two lines"]).shown ∧
      (log [ofString "two lines"]).shown ≠ (log [ofString "two\nlines"]).shown ∧
      ofText? ([ofString "bell\x07"].foldl XesLog.add []).render = none := by
  have hlines : ∀ text ∈ ["trace", "event", "text", "two\nlines"], text.toList.all isChar := by
    decide +kernel
  have hbell : ¬ ∀ text ∈ ["trace", "event", "text", "bell\x07"], text.toList.all isChar := by
    decide +kernel
  refine ⟨?_, ?_, ?_⟩
  · rw [foldl_add, XesLog.ofText?_render_eq, texts_ofString, if_pos hlines, Option.bind_some,
      XesLog.log?_element]
    rfl
  · simp [shown_ofString]
  · rw [foldl_add, XesLog.ofText?_render_eq, texts_ofString, if_neg hbell]

end XesRecord

end ChainExtract
