import DocExport.Document.Selection
import DocExport.Json.Document
import DocExport.Output.Element
import DocExport.Output.Table
import DocExport.Request.Basic
import DocExport.Transform

/-! From a request and a collection of documents to a response. Documents are formatted only if
they are part of the results and the format is known; otherwise the results go out as they are. -/
namespace DocExport

/-- A collection as one JSON value: a lone document is itself, any other number is an array. -/
def Document.collection : List Document → Document
  | [d] => d
  | docs => .array docs

def Document.collectionJson (pretty : Bool) (docs : List Document) : String :=
  if pretty then (collection docs).indented else (collection docs).compact

/-- The documents in one format. -/
def Format.render (format : Format) (layout : Layout) (docs : List Document) :
    Except FormatFault Response :=
  match format with
  | .json => .ok ⟨Document.collectionJson layout.pretty docs, "application/json"⟩
  | .xml => (Element.render docs).map (⟨·, "application/xml"⟩)
  | .csv => (SeparatedValues.render layout docs).map (⟨·, layout.csvContentType⟩)

/-- What a request selects. -/
inductive Output where
  | results (pretty : Bool) (callback : Option String)
  | documents (format : Format) (layout : Layout) (callback : Option String)
  deriving DecidableEq, Repr

/-- Settings in force together with the transform that they name. The transforms of a catalog never
fail, but one that refuses documents may stand here. -/
structure Renderer where
  settings : Settings
  transform : Document → Except Failure Document

namespace Renderer

/-- Settings are checked here, not when a request arrives. -/
def ofSettings (catalog : Catalog) (s : Settings) : Except SettingsFault Renderer := do
  s.validate
  let transform ← catalog.resolve s.transform
  return ⟨s, fun d => .ok (transform.apply d)⟩

def select (renderer : Renderer) (request : Request) : Output :=
  match request.includeDocs, request.format.bind Format.ofName? with
  | true, some format =>
    let layout := { Layout.ofSettings renderer.settings with
      keys := request.keys, labels := request.labels, delimiter := request.delimiter
      pretty := request.debug }
    .documents format layout request.callback
  | _, _ => .results request.debug request.callback

/-- A body inside a call of the callback, with the content type for that. -/
def wrap (s : Settings) (callback : Option String) (response : Response) : Response :=
  match callback with
  | some name => ⟨name ++ "(" ++ response.body ++ ")", s.callbackContentType⟩
  | none => response

/-- Tables take their columns from the keys; the other formats get documents cut down to them. -/
def formatDocuments (format : Format) (layout : Layout) (docs : List Document) :
    Except Failure Response :=
  match format with
  | .csv => (format.render layout docs).mapError .format
  | .json | .xml => do
    let docs ← (Document.restrictAll layout.keys docs).mapError .addressing
    (format.render layout docs).mapError .format

def produce (renderer : Renderer) (docs : List Document) : Output → Except Failure Response
  | .results pretty callback =>
    .ok (wrap renderer.settings callback
      ⟨Document.collectionJson pretty docs, "application/json"⟩)
  | .documents format layout callback => do
    let docs ← docs.mapM renderer.transform
    (formatDocuments format layout docs).map (wrap renderer.settings callback)

def render (renderer : Renderer) (request : Request) (docs : List Document) :
    Except Failure Response := do
  request.validate.mapError .request
  renderer.produce docs (renderer.select request)

end Renderer

end DocExport
