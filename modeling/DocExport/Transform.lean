import DocExport.Failure

/-! Changes made to every document before it is formatted, and the catalog that finds them by
name. -/
namespace DocExport

inductive Transform where
  /-- Leaves documents as they are. -/
  | identity
  /-- Drops the members at the root of an object whose keys start with an underscore. -/
  | stripMeta
  deriving DecidableEq, Repr

namespace Transform

def name : Transform → String
  | .identity => "identity"
  | .stripMeta => "strip-meta"

/-- Whether a key names metadata of a document store. -/
def isMetaKey (key : String) : Bool := key.toList.head? = some '_'

def apply : Transform → Document → Document
  | .identity, d => d
  | .stripMeta, .object members => .object (members.filter fun member => !isMetaKey member.1)
  | .stripMeta, d => d

end Transform

/-- The transforms that can be asked for, each name once. -/
structure Catalog where
  transforms : List Transform := []

namespace Catalog

def register (c : Catalog) (t : Transform) : Catalog :=
  ⟨c.transforms.filter (·.name ≠ t.name) ++ [t]⟩

def builtIn : Catalog := (Catalog.register {} .identity).register .stripMeta

def find? (c : Catalog) (name : String) : Option Transform :=
  c.transforms.find? (·.name = name)

/-- The known names in alphabetical order. -/
def names (c : Catalog) : List String :=
  (c.transforms.map Transform.name).mergeSort (· ≤ ·)

def resolve (c : Catalog) (name : String) : Except SettingsFault Transform :=
  match c.find? name with
  | some transform => .ok transform
  | none => .error (.unknownTransform name c.names)

end Catalog

end DocExport
