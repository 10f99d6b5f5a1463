import DocExport.Renderer

/-! What decides about a response. A callback is put around the response that there would be without
it, and everything else in a request or in the settings bears on some outputs only. -/
namespace DocExport

/-- A format is known by one name. -/
theorem Format.ofName?_eq_some_iff {name : String} {format : Format} :
    Format.ofName? name = some format ↔ name = format.name := by
  rw [Format.ofName?]
  constructor
  · intro h
    have hname := List.find?_some h
    exact (of_decide_eq_true hname).symm
  · rintro rfl
    cases format <;> decide

namespace Request

/-- The results go out as they are: documents are no part of them, or no format has the name that is
asked for. -/
def SelectsResults (request : Request) : Prop :=
  request.includeDocs = false ∨ ∀ format : Format, request.format ≠ some format.name

/-- The documents go out in a format. -/
def SelectsDocuments (request : Request) (format : Format) : Prop :=
  request.includeDocs = true ∧ request.format = some format.name

end Request

namespace Renderer
variable {renderer renderer' : Renderer} {request request' : Request} {docs : List Document} {format : Format}

/-- The response to a request before a callback is put around it. -/
def bare (renderer : Renderer) (request : Request) (docs : List Document) : Except Failure Response :=
  renderer.produce docs (renderer.select { request with callback := none })

/-- What a request asks of the layout of documents. -/
def layout (renderer : Renderer) (request : Request) : Layout :=
  { Layout.ofSettings renderer.settings with
    keys := request.keys, labels := request.labels, delimiter := request.delimiter, pretty := request.debug }

theorem select_of_selectsResults (h : request.SelectsResults) :
    renderer.select request = .results request.debug request.callback := by
  have hformat : request.includeDocs = false ∨ request.format.bind Format.ofName? = none := by
    refine h.imp_right fun hno => Option.bind_eq_none_iff.mpr fun name hname => ?_
    rw [Option.eq_none_iff_forall_ne_some]
    exact fun format hfound => hno format (hname.trans (congrArg some (Format.ofName?_eq_some_iff.mp hfound)))
  rw [select]
  split
  · simp_all
  · rfl

theorem select_of_selectsDocuments (h : request.SelectsDocuments format) :
    renderer.select request = .documents format (renderer.layout request) request.callback := by
  have hformat : request.format.bind Format.ofName? = some format := by
    rw [h.2]
    exact Format.ofName?_eq_some_iff.mpr rfl
  rw [select, h.1, hformat]
  rfl

theorem selectsResults_or_selectsDocuments (request : Request) :
    request.SelectsResults ∨ ∃ format, request.SelectsDocuments format := by
  cases hdocs : request.includeDocs with
  | false => exact .inl (.inl hdocs)
  | true =>
    by_cases hformat : ∃ format : Format, request.format = some format.name
    · obtain ⟨format, hformat⟩ := hformat
      exact .inr ⟨format, hdocs, hformat⟩
    · exact .inl (.inr fun format heq => hformat ⟨format, heq⟩)

theorem bare_of_selectsResults (h : request.SelectsResults) :
    renderer.bare request docs = .ok ⟨Document.collectionJson request.debug docs, "application/json"⟩ := by
  have hselect : renderer.select { request with callback := none } = .results request.debug none :=
    select_of_selectsResults h
  rw [bare, hselect]
  rfl

theorem bare_of_selectsDocuments (h : request.SelectsDocuments format) :
    renderer.bare request docs =
      (docs.mapM renderer.transform).bind (formatDocuments format (renderer.layout request)) := by
  have hselect : renderer.select { request with callback := none } =
      .documents format (renderer.layout request) none := select_of_selectsDocuments h
  rw [bare, hselect, produce]
  cases docs.mapM renderer.transform with
  | error failure => rfl
  | ok changed => exact congrFun Except.map_id _

/-- A request is checked, and then its response is the bare one with the callback around it. -/
theorem render_eq_bind_bare (renderer : Renderer) (request : Request) (docs : List Document) :
    renderer.render request docs =
      (request.validate.mapError .request).bind fun _ =>
        (renderer.bare request docs).map (wrap renderer.settings request.callback) := by
  rw [render]
  congr 1
  funext _
  rcases selectsResults_or_selectsDocuments request with h | ⟨format, h⟩
  · rw [bare_of_selectsResults h, select_of_selectsResults h]
    rfl
  · rw [bare_of_selectsDocuments h, select_of_selectsDocuments h, produce]
    cases docs.mapM renderer.transform with
    | error failure => rfl
    | ok changed => rfl

theorem bare_withCallback (callback : Option String) :
    renderer.bare { request with callback } docs = renderer.bare request docs := rfl

/-- A callback that is no name of a function is refused, whatever else is asked for. With any other the
response is the one that there is without it, failures included, inside a call of the callback. -/
theorem render_callback (renderer : Renderer) (request : Request) (docs : List Document) (name : String) :
    let called : Request := { request with callback := some name }
    match called.validate with
    | .error fault => fault = .callback name ∧ renderer.render called docs = .error (.request fault)
    | .ok () => renderer.render called docs =
        (renderer.render { request with callback := none } docs).map fun response =>
          ⟨name ++ "(" ++ response.body ++ ")", renderer.settings.callbackContentType⟩ := by
  intro called
  have hcalled : renderer.bare called docs = renderer.bare request docs := bare_withCallback (some name)
  have hplain : renderer.bare { request with callback := none } docs = renderer.bare request docs :=
    bare_withCallback none
  rw [render_eq_bind_bare, render_eq_bind_bare, hcalled, hplain]
  cases hvalid : called.validate with
  | error fault =>
    refine ⟨?_, rfl⟩
    simp only [called, Request.validate] at hvalid
    split at hvalid
    · cases hvalid
    · exact (Except.error.inj hvalid).symm
  | ok u =>
    have hnone : ({ request with callback := none } : Request).validate = .ok () := rfl
    rw [hnone]
    cases u
    cases renderer.bare request docs with
    | error failure => rfl
    | ok response => rfl

theorem wrap_congr {s s' : Settings} (h : s.callbackContentType = s'.callbackContentType)
    (callback : Option String) : wrap s callback = wrap s' callback := by
  funext response
  cases callback with
  | none => rfl
  | some name => rw [wrap, wrap, h]

theorem validate_congr (h : request.callback = request'.callback) : request.validate = request'.validate := by
  rw [Request.validate, Request.validate, h]

/-- Behind the bare response only the callback and its content type matter. -/
theorem render_eq_of_bare_eq (hcallback : request.callback = request'.callback)
    (hcontentType : renderer.settings.callbackContentType = renderer'.settings.callbackContentType)
    (hbare : renderer.bare request docs = renderer'.bare request' docs) :
    renderer.render request docs = renderer'.render request' docs := by
  rw [render_eq_bind_bare, render_eq_bind_bare, validate_congr hcallback, hcallback, wrap_congr hcontentType, hbare]

/-- Of what is asked of the layout, JSON takes the keys and whether it is indented, and XML takes the
keys. -/
theorem formatDocuments_congr {layout layout' : Layout} (hkeys : layout.keys = layout'.keys)
    (hformat : format = .json ∧ layout.pretty = layout'.pretty ∨ format = .xml) (docs : List Document) :
    formatDocuments format layout docs = formatDocuments format layout' docs := by
  rcases hformat with ⟨rfl, hpretty⟩ | rfl
  · simp only [formatDocuments, Format.render, hkeys, hpretty]
  · simp only [formatDocuments, Format.render, hkeys]

/-- Settings that are not for callbacks come into a layout as the content type and the line terminator
of tables. -/
theorem layout_congr (hcsv : renderer.settings.csvContentType = renderer'.settings.csvContentType)
    (hterminator : renderer.settings.lineTerminator = renderer'.settings.lineTerminator)
    (hkeys : request.keys = request'.keys) (hlabels : request.labels = request'.labels)
    (hdelimiter : request.delimiter = request'.delimiter) :
    renderer.layout request = { renderer'.layout request' with pretty := request.debug } := by
  simp only [layout, Layout.ofSettings, hcsv, hterminator, hkeys, hlabels, hdelimiter]

/-- With one callback and one content type for it, responses are equal, failures included: of results
with the same debug flag, whatever else is asked for and set; of documents in JSON or XML with the same
transform and keys, and for JSON the same debug flag, whatever the labels, the delimiters and the
settings for tables are; of tables with the same transform, settings for tables, keys, labels and
delimiter, whatever the debug flag is. -/
theorem render_eq_of_selects (renderer renderer' : Renderer) (request request' : Request) (docs : List Document)
    (hcallback : request.callback = request'.callback)
    (hcontentType : renderer.settings.callbackContentType = renderer'.settings.callbackContentType) :
    (request.SelectsResults → request'.SelectsResults → request.debug = request'.debug →
      renderer.render request docs = renderer'.render request' docs) ∧
    (∀ format, request.SelectsDocuments format → request'.SelectsDocuments format →
      renderer.transform = renderer'.transform → request.keys = request'.keys →
      format = .json ∧ request.debug = request'.debug ∨ format = .xml →
      renderer.render request docs = renderer'.render request' docs) ∧
    (request.SelectsDocuments .csv → request'.SelectsDocuments .csv →
      renderer.transform = renderer'.transform →
      renderer.settings.csvContentType = renderer'.settings.csvContentType →
      renderer.settings.lineTerminator = renderer'.settings.lineTerminator →
      request.keys = request'.keys → request.labels = request'.labels → request.delimiter = request'.delimiter →
      renderer.render request docs = renderer'.render request' docs) := by
  refine ⟨fun h h' hdebug => ?_, fun format h h' htransform hkeys hformat => ?_,
    fun h h' htransform hcsv hterminator hkeys hlabels hdelimiter => ?_⟩ <;>
    apply render_eq_of_bare_eq hcallback hcontentType
  · rw [bare_of_selectsResults h, bare_of_selectsResults h', hdebug]
  · rw [bare_of_selectsDocuments h, bare_of_selectsDocuments h', htransform]
    congr 1
    funext changed
    exact formatDocuments_congr hkeys hformat changed
  · rw [bare_of_selectsDocuments h, bare_of_selectsDocuments h', htransform,
      layout_congr hcsv hterminator hkeys hlabels hdelimiter]
    rfl

/-- Results for an unknown format and for no documents, XML with and without settings for tables, and
a table with and without the debug flag. -/
theorem render_eq_of_selects_pairs :
    let plain : Renderer := ⟨{}, fun d => .ok (Transform.identity.apply d)⟩
    let tabular : Renderer :=
      ⟨{ lineTerminator := "\r\n", csvContentType := "text/csv" }, fun d => .ok (Transform.identity.apply d)⟩
    let stripping : Renderer := ⟨{ transform := "strip-meta" }, fun d => .ok (Transform.stripMeta.apply d)⟩
    let request : Request := { keys := ["a.b"], includeDocs := true, callback := some "cb" }
    let unknown := { request with format := some "yaml" }
    let missing : Request := { callback := some "cb", delimiter := some "tab" }
    let xml := { request with format := some "xml" }
    let csv := { request with format := some "csv", labels := ["b"] }
    let docs : List Document :=
      [.object [("_id", .scalar (.string "x")), ("a", .object [("b", .scalar (.bool true))])], .object [("a", .null)]]
    (ofSettings .builtIn {} = .ok plain ∧
      ofSettings .builtIn { lineTerminator := "\r\n", csvContentType := "text/csv" } = .ok tabular ∧
      ofSettings .builtIn { transform := "strip-meta" } = .ok stripping) ∧
    plain.render unknown docs = stripping.render missing docs ∧
    plain.render { xml with debug := true } docs = tabular.render { xml with delimiter := some "," } docs ∧
    plain.render { csv with debug := true } docs = plain.render csv docs := by
  intro plain tabular stripping request unknown missing xml csv docs
  have hunknown : unknown.SelectsResults := .inr fun format => by cases format <;> decide
  refine ⟨⟨rfl, rfl, rfl⟩, ?_, ?_, ?_⟩
  · exact (render_eq_of_selects plain stripping unknown missing docs rfl rfl).1 hunknown (.inl rfl) rfl
  · exact (render_eq_of_selects plain tabular { xml with debug := true } { xml with delimiter := some "," } docs
      rfl rfl).2.1 .xml ⟨rfl, rfl⟩ ⟨rfl, rfl⟩ rfl rfl (.inr rfl)
  · exact (render_eq_of_selects plain plain { csv with debug := true } csv docs
      rfl rfl).2.2 ⟨rfl, rfl⟩ ⟨rfl, rfl⟩ rfl rfl rfl rfl rfl rfl

end Renderer
end DocExport
