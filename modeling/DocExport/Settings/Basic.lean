import DocExport.Failure

/-! Settings that shape every response, whatever is requested. -/
namespace DocExport

structure Settings where
  /-- Written after every row of a table. -/
  lineTerminator : String := "\n"
  csvContentType : String := "text/plain"
  /-- For bodies wrapped in a callback. -/
  callbackContentType : String := "text/javascript"
  /-- The name of the transform for documents. -/
  transform : String := "identity"
  deriving DecidableEq, Repr

namespace Settings

def validate (s : Settings) : Except SettingsFault Unit :=
  if s.lineTerminator.isEmpty then .error .emptyTerminator else .ok ()

/-- A name that is there and not empty takes the place of the transform. -/
def withTransform (s : Settings) : Option String → Settings
  | some name => if name.isEmpty then s else { s with transform := name }
  | none => s

end Settings

end DocExport
