import DocExport.Proofs.Refusals

/-! How a rendering ends, document by document. The request is checked before any document is looked at; then
the documents are changed, cut down to the keys unless they go into a table, and formatted. Each of these stages
takes the documents in their order and is over before the next one. -/
namespace DocExport
variable {docs : List Document} {layout : Layout} {format : Format} {failure : Failure} {response : Response}

/-- The table of rows that are there already. -/
def Table.ofRows (layout : Layout) (rows : List Row) : Table :=
  let columns := columns layout.keys rows
  { header := if layout.labels.length = columns.length then layout.labels else columns
    rows := rows.map fun row => columns.map (cell row) }

theorem Table.ofDocuments_eq_map :
    ofDocuments layout.keys layout.labels docs = (Document.toRows layout.keys docs).map (ofRows layout) := by
  rw [ofDocuments]
  cases Document.toRows layout.keys docs with
  | error fault => rfl
  | ok rows => rfl

/-- The body of rows, empty for none. -/
def SeparatedValues.body (layout : Layout) (rows : List Row) : String :=
  if rows.isEmpty then "" else write (separator layout.delimiter) layout.lineTerminator (Table.ofRows layout rows)

theorem SeparatedValues.render_eq_map : render layout docs = (Document.toRows layout.keys docs).map (body layout) := by
  cases docs with
  | nil => rfl
  | cons d docs =>
    rw [render, Table.ofDocuments_eq_map, List.isEmpty_cons, if_neg Bool.false_ne_true]
    cases hrows : Document.toRows layout.keys (d :: docs) with
    | error fault => rfl
    | ok rows =>
      cases mapM_eq_ok_iff.mp hrows with
      | cons hrow hrest => rfl

theorem Element.ofItems_eq_map (name : String) (items : List Document) :
    ofItems name items = (items.mapM (ofDocument name)).map List.flatten := by
  induction items with
  | nil => rfl
  | cons item items ih =>
    rw [ofItems, ih, List.mapM_cons]
    cases ofDocument name item with
    | error fault => rfl
    | ok forest =>
      cases items.mapM (ofDocument name) with
      | error fault => rfl
      | ok forests => rfl

namespace Format

/-- What formatting fails with, and at which stage. -/
inductive Fails (layout : Layout) (docs : List Document) : Format → Failure → Prop where
  | row {fault : FormatFault} :
    FirstFails (fun x : Document × Nat => x.1.toRowAt layout.keys x.2) docs.zipIdx fault →
      Fails layout docs .csv (.format fault)
  | cut {format : Format} {fault : AddressFault} :
    format ≠ .csv → FirstFails (Document.restrict layout.keys) docs fault →
      Fails layout docs format (.addressing fault)
  | element {cuts : List Document} {fault : FormatFault} :
    List.Forall₂ (fun d cut => d.restrict layout.keys = .ok cut) docs cuts →
      FirstFails (Element.ofDocument "doc") cuts fault → Fails layout docs .xml (.format fault)

/-- What formatting gives if no stage fails on any document. -/
inductive Completes (layout : Layout) (docs : List Document) : Format → Response → Prop where
  | rows {rows : List Row} :
    List.Forall₂ (fun (x : Document × Nat) row => x.1.toRowAt layout.keys x.2 = .ok row) docs.zipIdx rows →
      Completes layout docs .csv ⟨SeparatedValues.body layout rows, layout.csvContentType⟩
  | cuts {cuts : List Document} :
    List.Forall₂ (fun d cut => d.restrict layout.keys = .ok cut) docs cuts →
      Completes layout docs .json ⟨Document.collectionJson layout.pretty cuts, "application/json"⟩
  | elements {cuts : List Document} {forests : List (List Element)} :
    List.Forall₂ (fun d cut => d.restrict layout.keys = .ok cut) docs cuts →
      List.Forall₂ (fun cut forest => Element.ofDocument "doc" cut = .ok forest) cuts forests →
      Completes layout docs .xml ⟨String.ofList (Element.parent "docs" forests.flatten).chars, "application/xml"⟩

end Format

namespace Renderer

theorem formatDocuments_csv_eq : formatDocuments .csv layout docs =
    ((docs.zipIdx.mapM fun x : Document × Nat => x.1.toRowAt layout.keys x.2).map fun rows =>
      (⟨SeparatedValues.body layout rows, layout.csvContentType⟩ : Response)).mapError .format := by
  rw [formatDocuments, Format.render, SeparatedValues.render_eq_map, Document.toRows]
  cases docs.zipIdx.mapM fun x : Document × Nat => x.1.toRowAt layout.keys x.2 with
  | error fault => rfl
  | ok rows => rfl

theorem formatDocuments_json_eq : formatDocuments .json layout docs =
    ((docs.mapM (Document.restrict layout.keys)).mapError Failure.addressing).map fun cuts =>
      ⟨Document.collectionJson layout.pretty cuts, "application/json"⟩ := by
  rw [formatDocuments, Document.restrictAll]
  cases docs.mapM (Document.restrict layout.keys) with
  | error fault => rfl
  | ok cuts => rfl

theorem formatDocuments_xml_eq : formatDocuments .xml layout docs =
    (docs.mapM (Document.restrict layout.keys)).mapError .addressing >>= fun cuts =>
      ((cuts.mapM (Element.ofDocument "doc")).map fun forests =>
        (⟨String.ofList (Element.parent "docs" forests.flatten).chars, "application/xml"⟩ : Response)).mapError
          .format := by
  rw [formatDocuments, Document.restrictAll]
  congr 1
  funext cuts
  rw [Format.render, Element.render, Element.ofDocuments, Element.ofItems_eq_map]
  cases cuts.mapM (Element.ofDocument "doc") with
  | error fault => rfl
  | ok forests => rfl

theorem formatDocuments_eq_error_iff :
    formatDocuments format layout docs = .error failure ↔ Format.Fails layout docs format failure := by
  cases format with
  | csv =>
    rw [formatDocuments_csv_eq, mapError_eq_error_iff]
    constructor
    · rintro ⟨fault, hfault, rfl⟩
      exact .row (mapM_eq_error_iff.mp (map_eq_error_iff.mp hfault))
    · intro h
      cases h with
      | row hfirst => exact ⟨_, map_eq_error_iff.mpr (mapM_eq_error_iff.mpr hfirst), rfl⟩
      | cut hne _ => exact absurd rfl hne
  | json =>
    rw [formatDocuments_json_eq, map_eq_error_iff, mapError_eq_error_iff]
    constructor
    · rintro ⟨fault, hfault, rfl⟩
      exact .cut (by decide) (mapM_eq_error_iff.mp hfault)
    · intro h
      cases h with
      | cut _ hfirst => exact ⟨_, mapM_eq_error_iff.mpr hfirst, rfl⟩
  | xml =>
    rw [formatDocuments_xml_eq, bind_eq_error_iff]
    simp only [mapError_eq_error_iff, mapError_eq_ok_iff, map_eq_error_iff, mapM_eq_error_iff, mapM_eq_ok_iff]
    constructor
    · rintro (⟨fault, hfirst, rfl⟩ | ⟨cuts, hcuts, fault, hfirst, rfl⟩)
      · exact .cut (by decide) hfirst
      · exact .element hcuts hfirst
    · intro h
      cases h with
      | cut _ hfirst => exact .inl ⟨_, hfirst, rfl⟩
      | element hcuts hfirst => exact .inr ⟨_, hcuts, _, hfirst, rfl⟩

theorem formatDocuments_eq_ok_iff :
    formatDocuments format layout docs = .ok response ↔ Format.Completes layout docs format response := by
  cases format with
  | csv =>
    rw [formatDocuments_csv_eq, mapError_eq_ok_iff, map_eq_ok_iff]
    constructor
    · rintro ⟨rows, hrows, rfl⟩
      exact .rows (mapM_eq_ok_iff.mp hrows)
    · rintro ⟨hrows⟩
      exact ⟨_, mapM_eq_ok_iff.mpr hrows, rfl⟩
  | json =>
    rw [formatDocuments_json_eq, map_eq_ok_iff]
    constructor
    · rintro ⟨cuts, hcuts, rfl⟩
      exact .cuts (mapM_eq_ok_iff.mp (mapError_eq_ok_iff.mp hcuts))
    · intro h
      cases h with
      | cuts hcuts => exact ⟨_, mapError_eq_ok_iff.mpr (mapM_eq_ok_iff.mpr hcuts), rfl⟩
  | xml =>
    rw [formatDocuments_xml_eq, bind_eq_ok_iff]
    simp only [mapError_eq_ok_iff, map_eq_ok_iff, mapM_eq_ok_iff]
    constructor
    · rintro ⟨cuts, hcuts, forests, hforests, rfl⟩
      exact .elements hcuts hforests
    · intro h
      cases h with
      | elements hcuts hforests => exact ⟨_, hcuts, _, hforests, rfl⟩

variable {renderer : Renderer} {request : Request}

/-- What a rendering fails with, and at which stage. No transform of a catalog fails, but one that refuses
documents would be asked before they are formatted. -/
inductive Fails (renderer : Renderer) (request : Request) (docs : List Document) : Failure → Prop where
  | request {fault : RequestFault} : request.validate = .error fault → Fails renderer request docs (.request fault)
  | change {format : Format} {failure : Failure} :
    request.validate = .ok () → request.SelectsDocuments format → FirstFails renderer.transform docs failure →
      Fails renderer request docs failure
  | format {format : Format} {changed : List Document} {failure : Failure} :
    request.validate = .ok () → request.SelectsDocuments format →
      List.Forall₂ (fun d e => renderer.transform d = .ok e) docs changed →
      Format.Fails (renderer.layout request) changed format failure → Fails renderer request docs failure

/-- What a rendering gives, inside a call of the callback, if no stage fails. -/
inductive Completes (renderer : Renderer) (request : Request) (docs : List Document) : Response → Prop where
  | results : request.validate = .ok () → request.SelectsResults → Completes renderer request docs
      (wrap renderer.settings request.callback ⟨Document.collectionJson request.debug docs, "application/json"⟩)
  | documents {format : Format} {changed : List Document} {response : Response} :
    request.validate = .ok () → request.SelectsDocuments format →
      List.Forall₂ (fun d e => renderer.transform d = .ok e) docs changed →
      Format.Completes (renderer.layout request) changed format response →
      Completes renderer request docs (wrap renderer.settings request.callback response)

theorem render_eq_error_iff : renderer.render request docs = .error failure ↔ renderer.Fails request docs failure := by
  constructor
  · intro h
    cases hvalid : request.validate with
    | error fault =>
      rw [render_eq_bind_bare, hvalid] at h
      cases h
      exact .request hvalid
    | ok u =>
      rw [render_of_validate hvalid, map_eq_error_iff] at h
      rcases selectsResults_or_selectsDocuments request with hselect | ⟨format, hselect⟩
      · rw [bare_of_selectsResults hselect] at h
        cases h
      · rw [bare_of_selectsDocuments hselect] at h
        rcases bind_eq_error_iff.mp h with hchange | ⟨changed, hchanges, hformat⟩
        · exact .change hvalid hselect (mapM_eq_error_iff.mp hchange)
        · exact .format hvalid hselect (mapM_eq_ok_iff.mp hchanges) (formatDocuments_eq_error_iff.mp hformat)
  · intro h
    cases h with
    | request hvalid =>
      rw [render_eq_bind_bare, hvalid]
      rfl
    | change hvalid hselect hfirst =>
      rw [render_of_validate hvalid, bare_of_selectsDocuments hselect, mapM_eq_error_iff.mpr hfirst]
      rfl
    | format hvalid hselect hchanges hformat =>
      rw [render_of_validate hvalid, bare_of_selectsDocuments hselect, mapM_eq_ok_iff.mpr hchanges, Except.bind,
        formatDocuments_eq_error_iff.mpr hformat]
      rfl

theorem render_eq_ok_iff : renderer.render request docs = .ok response ↔ renderer.Completes request docs response := by
  constructor
  · intro h
    cases hvalid : request.validate with
    | error fault =>
      rw [render_eq_bind_bare, hvalid] at h
      cases h
    | ok u =>
      rw [render_of_validate hvalid, map_eq_ok_iff] at h
      obtain ⟨bare, hbare, rfl⟩ := h
      rcases selectsResults_or_selectsDocuments request with hselect | ⟨format, hselect⟩
      · rw [bare_of_selectsResults hselect] at hbare
        cases hbare
        exact .results hvalid hselect
      · rw [bare_of_selectsDocuments hselect] at hbare
        obtain ⟨changed, hchanges, hformat⟩ := bind_eq_ok_iff.mp hbare
        exact .documents hvalid hselect (mapM_eq_ok_iff.mp hchanges) (formatDocuments_eq_ok_iff.mp hformat)
  · intro h
    cases h with
    | results hvalid hselect =>
      rw [render_of_validate hvalid, bare_of_selectsResults hselect]
      rfl
    | documents hvalid hselect hchanges hformat =>
      rw [render_of_validate hvalid, bare_of_selectsDocuments hselect, mapM_eq_ok_iff.mpr hchanges, Except.bind,
        formatDocuments_eq_ok_iff.mpr hformat]
      rfl

end Renderer
end DocExport
