import DocExport.Document.Address

/-! Documents restricted to some of their paths: the value at each path is written to the same
path of a fresh object, null where there is none. -/
namespace DocExport.Document

/-- The target with the value of one path copied into it. -/
def copyPath (source target : Document) (path : Path) : Except AddressFault Document :=
  match source.get path with
  | .error fault => .error fault
  | .ok value =>
    let edit := target.set path (value.getD .null)
    match edit.fault with
    | some fault => .error fault
    | none => .ok edit.document

/-- The document restricted to the paths of `keys`; with no keys it stays whole. -/
def restrict (keys : List String) (d : Document) : Except AddressFault Document :=
  if keys.isEmpty then .ok d
  else (keys.map Path.ofText).foldlM (d.copyPath ·) (.object [])

def restrictAll (keys : List String) (docs : List Document) : Except AddressFault (List Document) :=
  docs.mapM (restrict keys)

end DocExport.Document
