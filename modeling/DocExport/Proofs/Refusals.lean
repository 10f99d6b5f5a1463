import DocExport.Proofs.FunctionName
import DocExport.Proofs.Outcomes
import DocExport.Proofs.Responses

/-! What a rendering can fail with. The settings are checked before there is a renderer and the catalog has
no transform that fails, so only the request is left to blame: its callback, a path, or documents that do not
fit the format. -/
namespace DocExport
namespace Failure

def IsAddressing (failure : Failure) : Prop := ∃ fault, failure = .addressing fault

def IsFormat (failure : Failure) : Prop := ∃ fault, failure = .format fault

end Failure

namespace Renderer
variable {catalog : Catalog} {s : Settings} {renderer : Renderer} {request : Request} {docs : List Document}

/-- A renderer applies the transform of the catalog that its settings name. -/
theorem exists_transform_of_ofSettings (h : ofSettings catalog s = .ok renderer) :
    ∃ transform : Transform, transform.name = s.transform ∧ renderer = ⟨s, fun d => .ok (transform.apply d)⟩ := by
  rw [ofSettings] at h
  cases hvalid : s.validate with
  | error fault =>
    rw [hvalid] at h
    cases h
  | ok u =>
    rw [hvalid] at h
    cases hfind : catalog.find? s.transform with
    | none =>
      rw [Catalog.resolve, hfind] at h
      cases h
    | some transform =>
      rw [Catalog.resolve, hfind] at h
      cases h
      have hname := List.find?_some (show catalog.transforms.find? (·.name = s.transform) = some transform from hfind)
      exact ⟨transform, of_decide_eq_true hname, rfl⟩

/-- Documents are changed without fail, and then formatted. -/
theorem exists_bare_of_ofSettings (h : ofSettings catalog s = .ok renderer) (docs : List Document) :
    ∃ changed, ∀ request format, request.SelectsDocuments format →
      renderer.bare request docs = formatDocuments format (renderer.layout request) changed := by
  obtain ⟨transform, -, rfl⟩ := exists_transform_of_ofSettings h
  refine ⟨docs.map transform.apply, fun request format hselect => ?_⟩
  have hmap : docs.mapM (fun d => (.ok (transform.apply d) : Except Failure Document)) =
      .ok (docs.map transform.apply) := List.mapM_pure
  rw [bare_of_selectsDocuments hselect, hmap]
  rfl

theorem restrictAll_nil (docs : List Document) : Document.restrictAll [] docs = .ok docs := by
  have hmap : docs.mapM (fun d => (.ok d : Except AddressFault Document)) = .ok (docs.map id) := List.mapM_pure
  rw [List.map_id] at hmap
  exact hmap

theorem failsOnly_formatDocuments_csv (layout : Layout) (docs : List Document) :
    FailsOnly Failure.IsFormat (formatDocuments .csv layout docs) :=
  failsOnly_mapError fun fault => ⟨fault, rfl⟩

theorem failsOnly_formatDocuments_json (layout : Layout) (docs : List Document) :
    FailsOnly Failure.IsAddressing (formatDocuments .json layout docs) :=
  (failsOnly_mapError fun fault => ⟨fault, rfl⟩).bind fun _ => failsOnly_ok _

theorem failsOnly_formatDocuments_xml (layout : Layout) (docs : List Document) :
    FailsOnly (fun failure => failure.IsAddressing ∨ failure.IsFormat) (formatDocuments .xml layout docs) :=
  (failsOnly_mapError fun fault => .inl ⟨fault, rfl⟩).bind fun _ => failsOnly_mapError fun fault => .inr ⟨fault, rfl⟩

/-- Behind the check of the request there are failures of two kinds only. -/
theorem failsOnly_bare (h : ofSettings catalog s = .ok renderer) (request : Request) (docs : List Document) :
    FailsOnly (fun failure => failure.IsAddressing ∨ failure.IsFormat) (renderer.bare request docs) := by
  rcases selectsResults_or_selectsDocuments request with hselect | ⟨format, hselect⟩
  · rw [bare_of_selectsResults hselect]
    exact failsOnly_ok _
  · obtain ⟨changed, hchanged⟩ := exists_bare_of_ofSettings h docs
    rw [hchanged request format hselect]
    cases format with
    | json => exact (failsOnly_formatDocuments_json _ changed).imp fun _ => .inl
    | csv => exact (failsOnly_formatDocuments_csv _ changed).imp fun _ => .inr
    | xml => exact failsOnly_formatDocuments_xml _ changed

theorem validate_eq_error_iff {fault : RequestFault} :
    request.validate = .error fault ↔
      ∃ name, request.callback = some name ∧ ¬ Callback.IsFunctionName name ∧ fault = .callback name := by
  rw [Request.validate]
  cases request.callback with
  | none => simp
  | some name =>
    simp only [← Callback.isName_iff, Option.some.injEq, exists_eq_left']
    by_cases hname : Callback.isName name
    · simp [hname]
    · simp [hname, eq_comm]

theorem validate_eq_ok (h : ∀ name, request.callback = some name → Callback.IsFunctionName name) :
    request.validate = .ok () := by
  cases hvalid : request.validate with
  | ok u => rfl
  | error fault =>
    obtain ⟨name, hname, hno, -⟩ := validate_eq_error_iff.mp hvalid
    exact absurd (h name hname) hno

theorem render_of_validate (h : request.validate = .ok ()) :
    renderer.render request docs = (renderer.bare request docs).map (wrap renderer.settings request.callback) := by
  rw [render_eq_bind_bare, h]
  rfl

/-- A renderer made from settings fails by the request alone. A callback that is no name of a function is
refused, and it alone. With any other, results as they are always go out; documents in JSON fail by a path only,
and not at all without keys; tables fail by the format only, whatever the keys are; documents in XML fail by a
path or by the format. -/
theorem render_refusals (catalog : Catalog) (s : Settings) (renderer : Renderer)
    (h : ofSettings catalog s = .ok renderer) (request : Request) (docs : List Document) :
    FailsOnly (·.isClientError) (renderer.render request docs) ∧
      (∀ fault, renderer.render request docs = .error (.request fault) ↔
        ∃ name, request.callback = some name ∧ ¬ Callback.IsFunctionName name ∧ fault = .callback name) ∧
      ((∀ name, request.callback = some name → Callback.IsFunctionName name) →
        (request.SelectsResults → ∃ response, renderer.render request docs = .ok response) ∧
        (request.SelectsDocuments .json → FailsOnly Failure.IsAddressing (renderer.render request docs) ∧
          (request.keys = [] → ∃ response, renderer.render request docs = .ok response)) ∧
        (request.SelectsDocuments .csv → FailsOnly Failure.IsFormat (renderer.render request docs)) ∧
        (request.SelectsDocuments .xml →
          FailsOnly (fun failure => failure.IsAddressing ∨ failure.IsFormat) (renderer.render request docs))) := by
  have hbare := failsOnly_bare h request docs
  obtain ⟨changed, hchanged⟩ := exists_bare_of_ofSettings h docs
  refine ⟨?_, fun fault => ?_, fun hcallback => ?_⟩
  · have hcheck : FailsOnly (fun failure : Failure => failure.isClientError) (request.validate.mapError .request) :=
      failsOnly_mapError fun _ => rfl
    rw [render_eq_bind_bare]
    refine hcheck.bind fun _ => (hbare.imp ?_).map
    rintro _ (⟨fault, rfl⟩ | ⟨fault, rfl⟩) <;> rfl
  · rw [← validate_eq_error_iff]
    cases hvalid : request.validate with
    | error own =>
      rw [render_eq_bind_bare, hvalid]
      exact ⟨fun heq => by cases heq; rfl, fun heq => by cases heq; rfl⟩
    | ok u =>
      rw [render_of_validate hvalid]
      refine iff_of_false (fun heq => ?_) nofun
      rcases hbare.map _ heq with ⟨_, hno⟩ | ⟨_, hno⟩ <;> cases hno
  · rw [render_of_validate (validate_eq_ok hcallback)]
    refine ⟨fun hselect => ?_, fun hselect => ⟨?_, fun hkeys => ?_⟩, fun hselect => ?_, fun hselect => ?_⟩
    · rw [bare_of_selectsResults hselect]
      exact ⟨_, rfl⟩
    · rw [hchanged request .json hselect]
      exact (failsOnly_formatDocuments_json _ changed).map
    · have hnil : (renderer.layout request).keys = [] := hkeys
      rw [hchanged request .json hselect, formatDocuments, hnil, restrictAll_nil]
      exact ⟨_, rfl⟩
    · rw [hchanged request .csv hselect]
      exact (failsOnly_formatDocuments_csv _ changed).map
    · rw [hchanged request .xml hselect]
      exact (failsOnly_formatDocuments_xml _ changed).map

/-- An index over the limit in JSON, which as a key of a table only leaves cells empty, and an empty key of a
document that is no name of an element. -/
theorem render_refusals_stripped :
    let s : Settings := { transform := "strip-meta" }
    let renderer : Renderer := ⟨s, fun d => .ok (Transform.stripMeta.apply d)⟩
    let docs : List Document := [.object [("_id", .null), ("", .array [.scalar (.bool true)])]]
    let request : Request :=
      { includeDocs := true, format := some "json", keys := ["c.65536"], callback := some "app.show" }
    let failure := Failure.addressing (.indexOverLimit 65536 ⟨["65536"], false⟩)
    ofSettings .builtIn s = .ok renderer ∧ renderer.render request docs = .error failure ∧ failure.isClientError ∧
      FailsOnly Failure.IsFormat (renderer.render { request with format := some "csv" } docs) ∧
      renderer.render { request with format := some "xml", keys := [] } docs = .error (.format (.elementName "")) ∧
      renderer.render { request with callback := some "show()" } docs = .error (.request (.callback "show()")) := by
  intro s renderer docs request failure
  have h : ofSettings .builtIn s = .ok renderer := by rfl
  have hfailure : renderer.render request docs = .error failure := by rfl
  have hname : Callback.IsFunctionName "app.show" := (Callback.isName_iff "app.show").mp (by decide)
  have hno : ¬ Callback.IsFunctionName "show()" := mt (Callback.isName_iff "show()").mpr (by decide)
  have hcsv := render_refusals .builtIn s renderer h { request with format := some "csv" } docs
  have hcall := render_refusals .builtIn s renderer h { request with callback := some "show()" } docs
  refine ⟨h, hfailure, (render_refusals .builtIn s renderer h request docs).1 failure hfailure, ?_, by rfl, ?_⟩
  · refine (hcsv.2.2 fun name heq => ?_).2.2.1 ⟨rfl, rfl⟩
    cases heq
    exact hname
  · exact (hcall.2.1 (.callback "show()")).mpr ⟨"show()", rfl, hno, rfl⟩

end Renderer
end DocExport
