import ChainExtract.Proofs.Export.EventLogs
import ChainExtract.Proofs.Export.Xml.Reading
import ChainExtract.Proofs.Numerals

/-! # Event logs as XML

The document of an event log is the printed form of its element.
-/

namespace ChainExtract

namespace XesLog

theorem toList_line (depth : Nat) {body : String} {tag : Tag} (hbody : body.toList = tag.text) :
    (line depth body).toList = TagLine.text (depth, tag) := by
  simp [line, TagLine.text, hbody]

end XesLog

namespace XesValue

open XesLog

mutual

/-- The lines of an attribute are those of its element. -/
theorem attributeLines_eq_layout (depth : Nat) (key : String) : ∀ value : XesValue,
    (attributeLines depth key value).map String.toList =
      ((value.element key).layout depth).map TagLine.text
  | .list items => by
      have hlist : ("<list key=\"" ++ escape key ++ "\">").toList =
          (Tag.opening "list" [("key", key)]).text := by
        simp [Tag.text, attributesText, attributeText, escape]
      have hopening : "<values>".toList = (Tag.opening "values" []).text := rfl
      have hclosing : "</values>".toList = (Tag.closing "values").text := rfl
      have hlast : "</list>".toList = (Tag.closing "list").text := rfl
      have hitems := listLines_eq_layout (depth + 2) key items
      simp [attributeLines, element, Element.layout, Element.layoutAll, hitems,
        toList_line _ hlist, toList_line _ hopening, toList_line _ hclosing, toList_line _ hlast]
  | .boolean _ | .date _ | .float _ | .int _ | .string _ => by
      simp only [attributeLines, element, Element.layout, List.isEmpty_nil, List.isEmpty_cons,
        Bool.not_false, Bool.and_self, if_true, List.map_cons, List.map_nil]
      rw [toList_line]
      simp [Tag.text, attributesText, attributeText, escape]

theorem listLines_eq_layout (depth : Nat) (key : String) : ∀ items : List XesValue,
    (listLines depth key items).map String.toList =
      (Element.layoutAll depth (elements key items)).map TagLine.text
  | [] => rfl
  | item :: items => by
      rw [listLines, elements, Element.layoutAll, List.map_append, List.map_append,
        attributeLines_eq_layout depth key item, listLines_eq_layout depth key items]

end

end XesValue

namespace XesLog

theorem eventLines_eq_layout (event : String × XesEvent) :
    (eventLines event.1 event.2).map String.toList =
      ((eventElement event).layout 2).map TagLine.text := by
  have hopening : "<event>".toList = (Tag.opening "event" []).text := rfl
  have hclosing : "</event>".toList = (Tag.closing "event").text := rfl
  simp [eventLines, eventElement, Element.layout, Element.layoutAll,
    Element.layoutAll_eq_flatMap, List.map_flatMap, List.flatMap_map,
    XesValue.attributeLines_eq_layout, toList_line _ hopening, toList_line _ hclosing]

theorem traceLines_eq_layout (trace : String × XesTrace) :
    (traceLines trace.1 trace.2).map String.toList =
      ((traceElement trace).layout 1).map TagLine.text := by
  have hopening : "<trace>".toList = (Tag.opening "trace" []).text := rfl
  have hclosing : "</trace>".toList = (Tag.closing "trace").text := rfl
  simp [traceLines, traceElement, Element.layout, Element.layoutAll,
    Element.layoutAll_eq_flatMap, List.map_flatMap, List.flatMap_map,
    XesValue.attributeLines_eq_layout, eventLines_eq_layout, toList_line _ hopening,
    toList_line _ hclosing]

/-- The document of a log is that of its element. -/
theorem render_eq_document (log : XesLog) : log.render = Xml.document log.element := by
  have hheader : headerLines.map String.toList = Xml.declaration ::
      ((0, .opening "log" logAttributes) :: Element.layoutAll 1 extensions).map TagLine.text := by
    decide +kernel
  have hclosing : "</log>".toList = (Tag.closing "log").text := rfl
  have hlines : (headerLines ++ log.flatMap (fun trace => traceLines trace.1 trace.2)
      ++ [line 0 "</log>"]).map String.toList =
      Xml.declaration :: (log.element.layout 0).map TagLine.text := by
    rw [List.map_append, List.map_append, hheader, List.map_flatMap]
    simp [element, Element.layout, Element.layoutAll_eq_flatMap, List.map_flatMap,
      List.flatMap_map, traceLines_eq_layout, toList_line _ hclosing, extensions]
  rw [← String.toList_inj, Xml.document, String.toList_ofList, render, String.toList_join,
    List.flatMap_def, hlines, List.flatten_cons, Element.text, List.flatMap_def]

end XesLog

/-! ### Names -/

namespace XesValue

theorem isName_tag (value : XesValue) : Xml.isName value.tag := by
  have hnames : ∀ name ∈ "list" :: Element.scalarTags, Xml.isName name := by decide +kernel
  exact hnames _ (by cases value <;> simp [tag, Element.scalarTags])

mutual

theorem proper_element (key : String) : ∀ value : XesValue, (value.element key).Proper
  | .list items => by
      have hlist : Xml.isName "list" := by decide +kernel
      have hvalues : Xml.isName "values" := by decide +kernel
      have hkeys : Tag.ProperKeys ["key"] := by decide +kernel
      have hnone : Tag.ProperKeys [] := by decide
      exact ⟨⟨hlist, hkeys⟩, ⟨⟨hvalues, hnone⟩, properAll_elements key items⟩, trivial⟩
  | .boolean _ | .date _ | .float _ | .int _ | .string _ => by
      have hkeys : Tag.ProperKeys ["key", "value"] := by decide +kernel
      exact ⟨⟨isName_tag _, hkeys⟩, trivial⟩

theorem properAll_elements (key : String) : ∀ items : List XesValue,
    Element.ProperAll (elements key items)
  | [] => trivial
  | item :: items => ⟨proper_element key item, properAll_elements key items⟩

end

end XesValue

namespace XesLog

theorem proper_eventElement (event : String × XesEvent) : (eventElement event).Proper := by
  have hname : Xml.isName "event" := by decide +kernel
  have hkeys : Tag.ProperKeys [] := by decide
  refine ⟨⟨hname, hkeys⟩, XesValue.proper_element _ _, ?_⟩
  rw [Element.properAll_iff, List.forall_mem_map]
  exact fun setting _ => XesValue.proper_element _ _

theorem proper_traceElement (trace : String × XesTrace) : (traceElement trace).Proper := by
  have hname : Xml.isName "trace" := by decide +kernel
  have hkeys : Tag.ProperKeys [] := by decide
  refine ⟨⟨hname, hkeys⟩, XesValue.proper_element _ _, ?_⟩
  rw [Element.properAll_iff, List.forall_mem_map]
  exact fun event _ => proper_eventElement event

theorem proper_extension (name lead uri : String) : (extension name lead uri).Proper := by
  have hname : Xml.isName "extension" := by decide +kernel
  have hkeys : Tag.ProperKeys ["name", "prefix", "uri"] := by decide +kernel
  exact ⟨⟨hname, hkeys⟩, trivial⟩

theorem proper_element (log : XesLog) : log.element.Proper := by
  have hname : Xml.isName "log" := by decide +kernel
  have hkeys : Tag.ProperKeys (logAttributes.map (·.1)) := by decide +kernel
  refine ⟨⟨hname, hkeys⟩, ?_⟩
  rw [Element.properAll_iff, List.forall_mem_append, List.forall_mem_map]
  exact ⟨by simp [extensions, proper_extension], fun trace _ => proper_traceElement trace⟩

end XesLog

end ChainExtract
