import DocExport.Text.Blank

/-! Short values in request parameters: lists of items between commas, and switches. -/
namespace DocExport.Text

/-- The items between commas without white space around them. Empty items are dropped. -/
def items (text : String) : List String :=
  (((text.toList.splitOn ',').map trim).filter (!·.isEmpty)).map String.ofList

/-- Whether a switch is on: only the word true, in any letter case. -/
def isTrue (text : String) : Bool :=
  (trim text.toList).map Char.toLower = ['t', 'r', 'u', 'e']

end DocExport.Text
