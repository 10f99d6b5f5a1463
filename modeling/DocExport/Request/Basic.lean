import DocExport.Failure
import DocExport.Request.Callback
import DocExport.Text.FormEncoding
import DocExport.Text.ItemList

/-! Render requests, read from name and value pairs. Each accepted name sets one field, and a later
pair overrides an earlier one. -/
namespace DocExport

/-- What one rendering is asked for. -/
structure Request where
  format : Option String := none
  includeDocs : Bool := false
  keys : List String := []
  labels : List String := []
  delimiter : Option String := none
  callback : Option String := none
  debug : Bool := false
  deriving DecidableEq, Repr

inductive Parameter where
  | format
  | includeDocs
  | keys
  | labels
  | delimiter
  | callback
  | debug
  deriving DecidableEq, Repr

/-- The parameter of a name. The format and the keys also have names of one letter. -/
def Parameter.ofName? (name : String) : Option Parameter :=
  if name = "output_format" ∨ name = "o" then some .format
  else if name = "include_docs" then some .includeDocs
  else if name = "export_keys" ∨ name = "k" then some .keys
  else if name = "csv_labels" then some .labels
  else if name = "csv_delimiter" then some .delimiter
  else if name = "callback" then some .callback
  else if name = "debug" then some .debug
  else none

/-- An empty value stands for none. -/
def nonEmpty? (value : String) : Option String :=
  if value.isEmpty then none else some value

namespace Request

def assign (r : Request) (value : String) : Parameter → Request
  | .format => { r with format := nonEmpty? value }
  | .includeDocs => { r with includeDocs := Text.isTrue value }
  | .keys => { r with keys := Text.items value }
  | .labels => { r with labels := Text.items value }
  | .delimiter => { r with delimiter := nonEmpty? value }
  | .callback => { r with callback := nonEmpty? value }
  | .debug => { r with debug := Text.isTrue value }

/-- Pairs with other names are passed over. -/
def assignPair (r : Request) (pair : String × String) : Request :=
  match Parameter.ofName? pair.1 with
  | some parameter => r.assign pair.2 parameter
  | none => r

def ofPairs (pairs : List (String × String)) : Request :=
  pairs.foldl assignPair {}

/-- The request of a URL query, with or without its question mark. -/
def ofQuery (query : String) : Request :=
  match query.toList with
  | '?' :: rest => ofPairs (Text.FormEncoding.decode (String.ofList rest))
  | _ => ofPairs (Text.FormEncoding.decode query)

/-- What must never reach a response body is refused. -/
def validate (r : Request) : Except RequestFault Unit :=
  match r.callback with
  | some name => if Callback.isName name then .ok () else .error (.callback name)
  | none => .ok ()

end Request

end DocExport
