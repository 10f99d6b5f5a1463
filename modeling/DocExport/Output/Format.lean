import DocExport.Settings.Basic

/-! The formats of documents and what may be asked of their layout. -/
namespace DocExport

inductive Format where
  | json
  | xml
  | csv
  deriving DecidableEq, Repr

namespace Format

def name : Format → String
  | .json => "json"
  | .xml => "xml"
  | .csv => "csv"

def ofName? (name : String) : Option Format :=
  [Format.json, .xml, .csv].find? (·.name = name)

def ofName (name : String) : Except RequestFault Format :=
  match ofName? name with
  | some format => .ok format
  | none => .error (.outputFormat name)

end Format

/-- What a format is asked for. -/
structure Layout where
  /-- Paths of the columns of a table; empty for the leaves of the first document. -/
  keys : List String
  /-- Other names for the columns, used if there is one for each. -/
  labels : List String
  /-- The separator as requested. -/
  delimiter : Option String
  /-- Whether JSON is indented. -/
  pretty : Bool
  lineTerminator : String
  csvContentType : String
  deriving DecidableEq, Repr

/-- Nothing asked for beyond the settings. -/
def Layout.ofSettings (s : Settings) : Layout :=
  { keys := [], labels := [], delimiter := none, pretty := false
    lineTerminator := s.lineTerminator, csvContentType := s.csvContentType }

/-- A finished response. -/
structure Response where
  body : String
  contentType : String
  deriving DecidableEq, Repr

end DocExport
