import DocExport.Document.Leaves
import DocExport.Output.Format

/-! Documents as a table of text cells, and the table written as separated values. The columns are
fixed before any row is laid out, so a value that a document lacks is an empty cell. -/
namespace DocExport

structure Table where
  header : List String
  rows : List (List String)
  deriving DecidableEq, Repr

namespace Table

/-- The keys, or without keys the leaf paths of the first row. -/
def columns (keys : List String) (rows : List Row) : List String :=
  if keys.isEmpty then (rows.head?.getD []).map (·.1) else keys

def cell (row : Row) (column : String) : String :=
  ((row.lookup column).map Scalar.text).getD ""

/-- The labels stand in the header if there is one for each column. -/
def ofDocuments (keys labels : List String) (docs : List Document) : Except FormatFault Table :=
  match Document.toRows keys docs with
  | .error fault => .error fault
  | .ok rows =>
    let columns := columns keys rows
    .ok { header := if labels.length = columns.length then labels else columns
          rows := rows.map fun row => columns.map (cell row) }

end Table

namespace SeparatedValues

def defaultSeparator : Char := ';'

/-- The word tab and any single character but the quote name a separator. -/
def separator : Option String → Char
  | some requested =>
    if requested = "tab" then '\t'
    else match requested.toList with
      | [c] => if c = '"' then defaultSeparator else c
      | _ => defaultSeparator
  | none => defaultSeparator

/-- Whether `part` occurs in the text. -/
def occursIn (part : List Char) : List Char → Bool
  | [] => part.isEmpty
  | c :: rest => part.isPrefixOf (c :: rest) || occursIn part rest

/-- Whether a cell has to be quoted to stand between separators and terminators. -/
def needsQuotes (separator : Char) (terminator cell : List Char) : Bool :=
  cell.any (fun c => c = separator || c = '\n' || c = '\r' || c = '\t' || c = '"') ||
    !terminator.isEmpty && occursIn terminator cell

/-- Quotes inside a quoted cell are doubled. -/
def quoted (cell : List Char) : List Char :=
  '"' :: cell.flatMap (fun c => if c = '"' then ['"', '"'] else [c]) ++ ['"']

def escape (separator : Char) (terminator cell : List Char) : List Char :=
  if needsQuotes separator terminator cell then quoted cell else cell

/-- One row and its terminator. -/
def writeRow (separator : Char) (terminator : List Char) (cells : List String) : List Char :=
  [separator].intercalate (cells.map fun cell => escape separator terminator cell.toList) ++
    terminator

def write (separator : Char) (terminator : String) (t : Table) : String :=
  String.ofList ((t.header :: t.rows).flatMap (writeRow separator terminator.toList))

/-- The body for a collection of documents, empty for none. -/
def render (layout : Layout) (docs : List Document) : Except FormatFault String :=
  if docs.isEmpty then .ok ""
  else (Table.ofDocuments layout.keys layout.labels docs).map
    (write (separator layout.delimiter) layout.lineTerminator)

end SeparatedValues

end DocExport
