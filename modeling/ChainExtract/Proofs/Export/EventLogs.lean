import ChainExtract.Proofs.Export.Markup
import ChainExtract.Proofs.Grouping

/-! # Reading event logs

What the document of an event log says about its traces, events and attributes, and that this
is what was recorded: every trace and event once, in the order in which they were first seen,
with the values that were set last.
-/

namespace ChainExtract

/-- The value of an attribute as a document shows it: the name of its type with a text, or a
list of values. -/
inductive ShownValue where
  | scalar (tag text : String)
  | list (items : List ShownValue)

/-- What a document shows: traces with their events, and these with their attributes. -/
abbrev ShownLog := Keyed String (Keyed String (Keyed String ShownValue))

namespace Element

/-- The names of elements that hold a single value. -/
def scalarTags : List String := ["boolean", "date", "float", "int", "string"]

mutual

/-- The key and the value of an attribute. -/
def attribute? : Element → Option (String × ShownValue)
  | .mk tag [("key", key), ("value", text)] [] =>
    if tag ∈ scalarTags then some (key, .scalar tag text) else none
  | .mk "list" [("key", key)] [.mk "values" [] items] =>
    (itemsOf? key items).map fun values => (key, .list values)
  | _ => none

/-- The values of the elements of a list, each of which has the key of the list. -/
def itemsOf? (key : String) : List Element → Option (List ShownValue)
  | [] => some []
  | item :: items => do
    let (own, value) ← attribute? item
    let values ← itemsOf? key items
    if own = key then return value :: values else none

end

/-- The text of an attribute with a key, if it has the type of texts. -/
def textUnder? (key : String) (element : Element) : Option String :=
  match attribute? element with
  | some (own, .scalar "string" text) => if own = key then some text else none
  | _ => none

/-- The id and the attributes of an event. -/
def event? : Element → Option (String × Keyed String ShownValue)
  | .mk "event" [] (id :: attributes) => do
    return (← textUnder? "identity:id" id, ← attributes.mapM attribute?)
  | _ => none

/-- The id and the events of a trace. -/
def trace? : Element → Option (String × Keyed String (Keyed String ShownValue))
  | .mk "trace" [] (id :: events) => do
    return (← textUnder? "concept:name" id, ← events.mapM event?)
  | _ => none

def isExtension : Element → Bool
  | .mk name _ _ => name == "extension"

/-- The traces of a log, which stand behind the extensions that it declares. -/
def log? : Element → Option ShownLog
  | .mk "log" _ children => (children.dropWhile isExtension).mapM trace?
  | _ => none

end Element

/-- The event log that a document shows. -/
def ShownLog.ofText? (text : String) : Option ShownLog := do (← Element.ofText? text).log?

namespace XesValue

mutual

/-- What a document shows of a value. -/
def shown : XesValue → ShownValue
  | .list items => .list (shownAll items)
  | value => .scalar value.tag value.text

def shownAll : List XesValue → List ShownValue
  | [] => []
  | item :: items => shown item :: shownAll items

end

mutual

/-- The element of an attribute. -/
def element (key : String) : XesValue → Element
  | .list items => .mk "list" [("key", key)] [.mk "values" [] (elements key items)]
  | value => .mk value.tag [("key", key), ("value", value.text)] []

def elements (key : String) : List XesValue → List Element
  | [] => []
  | item :: items => element key item :: elements key items

end

mutual

/-- An attribute shows its key and its value. -/
theorem attribute?_element (key : String) : ∀ value : XesValue,
    (value.element key).attribute? = some (key, value.shown)
  | .list items => by
      rw [element, Element.attribute?, itemsOf?_elements key items, shown]
      rfl
  | .boolean _ | .date _ | .float _ | .int _ | .string _ => by
      simp [element, Element.attribute?, shown, tag, Element.scalarTags]

theorem itemsOf?_elements (key : String) : ∀ items : List XesValue,
    Element.itemsOf? key (elements key items) = some (shownAll items)
  | [] => rfl
  | item :: items => by
      rw [elements, Element.itemsOf?, attribute?_element key item, itemsOf?_elements key items]
      simp [shownAll]

end

theorem leads_tag : ∀ tag ∈ Element.scalarTags,
    Lexer.Leads {} ("<" ++ tag ++ " key=\"").toList (Lexer.valued tag "key" []) := by
  decide +kernel

mutual

/-- The lines of an attribute are those of its element. -/
theorem writes_attributeLines (depth : Nat) (key : String) : ∀ value : XesValue,
    Writes (XesLog.attributeLines depth key value) [value.element key]
  | .list items => by
      have hlist : Lexer.Leads {} "<list key=\"".toList (Lexer.valued "list" "key" []) := rfl
      have hopening : Lexer.Lexes "<values>".toList [.opening "values" []] := rfl
      have hclosing : Lexer.Lexes "</values>".toList [.closing "values"] := rfl
      have hlast : Lexer.Lexes "</list>".toList [.closing "list"] := rfl
      have hvalues :=
        Writes.element (depth + 1) hopening (writes_listLines (depth + 2) key items) hclosing
      simpa [XesLog.attributeLines, element] using
        Writes.element depth (Lexer.lexes_keyed hlist key) hvalues hlast
  | .boolean _ | .date _ | .float _ | .int _ | .string _ =>
      Writes.lone depth (Lexer.lexes_valued (leads_tag _ (by simp [tag, Element.scalarTags])) key _)

theorem writes_listLines (depth : Nat) (key : String) : ∀ items : List XesValue,
    Writes (XesLog.listLines depth key items) (elements key items)
  | [] => Writes.nil
  | item :: items =>
      (writes_attributeLines depth key item).append (writes_listLines depth key items)

end

end XesValue

namespace XesLog

/-- The element of an event. -/
def eventElement (event : String × XesEvent) : Element :=
  .mk "event" [] ((XesValue.string event.1).element "identity:id" ::
    event.2.map fun (key, value) => value.element key)

/-- The element of a trace. -/
def traceElement (trace : String × XesTrace) : Element :=
  .mk "trace" [] ((XesValue.string trace.1).element "concept:name" :: trace.2.map eventElement)

/-- The element of an extension that a log declares. -/
def extension (name lead uri : String) : Element :=
  .mk "extension" [("name", name), ("prefix", lead), ("uri", uri)] []

def extensions : List Element :=
  [extension "Concept" "concept" "http://www.xes-standard.org/concept.xesext",
    extension "Identity" "identity" "http://www.xes-standard.org/identity.xesext"]

def logAttributes : List (String × String) :=
  [("xes.version", "1.0"), ("xes.features", "nested-attributes"),
    ("xmlns", "http://www.xes-standard.org/")]

/-- The element of a log. -/
def element (log : XesLog) : Element :=
  .mk "log" logAttributes (extensions ++ log.map traceElement)

theorem writes_eventLines (event : String × XesEvent) :
    Writes (eventLines event.1 event.2) [eventElement event] := by
  have hopening : Lexer.Lexes "<event>".toList [.opening "event" []] := rfl
  have hclosing : Lexer.Lexes "</event>".toList [.closing "event"] := rfl
  have hid := XesValue.writes_attributeLines 3 "identity:id" (.string event.1)
  have hattributes := Writes.flatMap event.2 fun setting _ =>
    XesValue.writes_attributeLines 3 setting.1 setting.2
  simpa [eventLines, eventElement] using
    Writes.element 2 hopening (hid.append hattributes) hclosing

theorem writes_traceLines (trace : String × XesTrace) :
    Writes (traceLines trace.1 trace.2) [traceElement trace] := by
  have hopening : Lexer.Lexes "<trace>".toList [.opening "trace" []] := rfl
  have hclosing : Lexer.Lexes "</trace>".toList [.closing "trace"] := rfl
  have hname := XesValue.writes_attributeLines 2 "concept:name" (.string trace.1)
  have hevents := Writes.flatMap trace.2 fun event _ => writes_eventLines event
  simpa [traceLines, traceElement] using
    Writes.element 1 hopening (hname.append hevents) hclosing

/-- The document of a log is read back as its element. -/
theorem element_of_render (log : XesLog) : Element.ofText? log.render = some log.element := by
  have hdeclaration :
      Lexer.Lexes "<?xml version=\"1.0\" encoding=\"UTF-8\" ?>".toList [] := by decide +kernel
  have hopening : Lexer.Lexes
      "<log xes.version=\"1.0\" xes.features=\"nested-attributes\" xmlns=\"http://www.xes-standard.org/\">".toList
      [.opening "log" logAttributes] := by decide +kernel
  have hconcept : Lexer.Lexes
      "<extension name=\"Concept\" prefix=\"concept\" uri=\"http://www.xes-standard.org/concept.xesext\"/>".toList
      [.lone "extension" [("name", "Concept"), ("prefix", "concept"),
        ("uri", "http://www.xes-standard.org/concept.xesext")]] := by decide +kernel
  have hidentity : Lexer.Lexes
      "<extension name=\"Identity\" prefix=\"identity\" uri=\"http://www.xes-standard.org/identity.xesext\"/>".toList
      [.lone "extension" [("name", "Identity"), ("prefix", "identity"),
        ("uri", "http://www.xes-standard.org/identity.xesext")]] := by decide +kernel
  have hclosing : Lexer.Lexes "</log>".toList [.closing "log"] := rfl
  have htraces := Writes.flatMap log fun trace _ => writes_traceLines trace
  have hextensions := (Writes.lone 1 hconcept).append (Writes.lone 1 hidentity)
  exact ((Writes.declaration 0 hdeclaration).append
    (Writes.element 0 hopening (hextensions.append htraces) hclosing)).ofText?

/-- What a document shows of an event. -/
def shownEvent (event : String × XesEvent) : String × Keyed String ShownValue :=
  (event.1, event.2.map fun (key, value) => (key, value.shown))

/-- What a document shows of a trace. -/
def shownTrace (trace : String × XesTrace) : String × Keyed String (Keyed String ShownValue) :=
  (trace.1, trace.2.map shownEvent)

/-- What a document shows of a log. -/
def shown (log : XesLog) : ShownLog := log.map shownTrace

theorem mapM_map_eq_some {α β : Type} {element : α → Element} {read : Element → Option β}
    {shownOf : α → β} (hread : ∀ item, read (element item) = some (shownOf item)) (items : List α) :
    (items.map element).mapM read = some (items.map shownOf) := by
  have hcomp : read ∘ element = fun item => pure (shownOf item) := funext hread
  rw [List.mapM_map, hcomp, List.mapM_pure]
  rfl

theorem textUnder?_element (key text : String) :
    ((XesValue.string text).element key).textUnder? key = some text := by
  simp [Element.textUnder?, XesValue.attribute?_element, XesValue.shown, XesValue.tag,
    XesValue.text]

theorem event?_eventElement (event : String × XesEvent) :
    (eventElement event).event? = some (shownEvent event) := by
  have hattributes := mapM_map_eq_some
    (fun setting : String × XesValue => XesValue.attribute?_element setting.1 setting.2) event.2
  rw [eventElement, Element.event?, textUnder?_element, hattributes]
  rfl

theorem trace?_traceElement (trace : String × XesTrace) :
    (traceElement trace).trace? = some (shownTrace trace) := by
  rw [traceElement, Element.trace?, textUnder?_element,
    mapM_map_eq_some event?_eventElement trace.2]
  rfl

theorem log?_element (log : XesLog) : log.element.log? = some log.shown := by
  have hextensions : (extensions ++ log.map traceElement).dropWhile Element.isExtension =
      log.map traceElement := by
    cases log <;> simp [extensions, extension, traceElement, Element.isExtension]
  rw [element, Element.log?, hextensions]
  exact mapM_map_eq_some trace?_traceElement log

end XesLog

namespace XesRecord

/-- The attributes of an event that records set last. -/
def attributesOf (records : List XesRecord) (event : String) : XesEvent :=
  Keyed.lastSettings ((records.filter (·.event = event)).flatMap (·.attributes))

/-- The events of a trace that records are for. -/
def eventsOf (records : List XesRecord) (trace : String) : XesTrace :=
  let inTrace := records.filter (·.trace = trace)
  (inTrace.map (·.event)).eraseDups.map fun event => (event, attributesOf inTrace event)

/-- The traces that records are for. -/
def log (records : List XesRecord) : XesLog :=
  (records.map (·.trace)).eraseDups.map fun trace => (trace, eventsOf records trace)

/-- Sets the attributes of a record on an event. -/
def setOn (attributes : XesEvent) (record : XesRecord) : XesEvent :=
  record.attributes.foldl (fun attributes (key, value) => Keyed.set attributes key value) attributes

/-- Adds the event of a record to a trace. -/
def addTo (events : XesTrace) (record : XesRecord) : XesTrace :=
  Keyed.update events record.event fun attributes? => setOn (attributes?.getD []) record

theorem foldl_setOn (records : List XesRecord) :
    records.foldl setOn [] = Keyed.lastSettings (records.flatMap (·.attributes)) := by
  rw [← Keyed.ofList_eq_lastSettings, Keyed.ofList, List.foldl_flatMap]
  rfl

theorem foldl_addTo (records : List XesRecord) :
    records.foldl addTo [] =
      (records.map (·.event)).eraseDups.map fun event => (event, attributesOf records event) := by
  refine (Keyed.foldl_update_getD (·.event) setOn [] records).trans ?_
  simp only [foldl_setOn, attributesOf]

/-- A log consists of the traces, events and attributes of the records that were added to it. -/
theorem foldl_add (records : List XesRecord) : records.foldl XesLog.add [] = log records := by
  refine (Keyed.foldl_update_getD (·.trace) addTo [] records).trans ?_
  simp only [foldl_addTo, log, eventsOf]

/-- The document of records is read back: their traces in first-seen order, in each trace its
events in first-seen order, and in each event its attributes with the values set last. -/
theorem ofText?_render (records : List XesRecord) :
    ShownLog.ofText? (records.foldl XesLog.add []).render = some (log records).shown := by
  rw [foldl_add, ShownLog.ofText?, XesLog.element_of_render]
  exact XesLog.log?_element _

end XesRecord

end ChainExtract
