import DocExport.Failure

/-! Documents inside search responses: a response holds an array `rows`, and a row may hold its
document under `doc`. -/
namespace DocExport.Document

/-- The document of a row. Rows without one, or with something that is no object there, have
none. -/
def rowDocument? (row : Document) : Option Document :=
  (row.member? "doc").filter isObject

/-- The documents of one response in order, none if it has no array of rows. -/
def responseDocuments? (response : Document) : Option (List Document) :=
  match response.member? "rows" with
  | some (.array rows) => some (rows.filterMap rowDocument?)
  | _ => none

/-- The documents of all responses in order. -/
def unwrapRows (responses : List Document) : Except FormatFault (List Document) := do
  let batches ← responses.zipIdx.mapM fun (response, position) =>
    match response.responseDocuments? with
    | some docs => .ok docs
    | none => .error (.noRows position)
  return batches.flatten

end DocExport.Document
