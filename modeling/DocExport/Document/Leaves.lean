import DocExport.Failure

/-! The scalar leaves of a document in document order, each with the path that leads to it, and
rows, which are collected leaf by leaf in one walk over a document. Empty containers have no
leaves. -/
namespace DocExport

/-- Leaf paths and their scalars, one level deep. -/
abbrev Row := List (String × Scalar)

abbrev Trail := List String

namespace Document

mutual

/-- Every leaf with its trail of keys and decimal positions. -/
def leaves : Document → List (Trail × Scalar)
  | .scalar value => [([], value)]
  | .array items => itemLeaves 0 items
  | .object members => memberLeaves members

def itemLeaves : (position : Nat) → List Document → List (Trail × Scalar)
  | _, [] => []
  | position, item :: items =>
    item.leaves.map (fun (trail, value) => (toString position :: trail, value)) ++
      itemLeaves (position + 1) items

def memberLeaves : List (String × Document) → List (Trail × Scalar)
  | [] => []
  | (key, value) :: members =>
    value.leaves.map (fun (trail, leaf) => (key :: trail, leaf)) ++ memberLeaves members

end

/-- The leaves under their path texts. -/
def pathLeaves (d : Document) : Row :=
  d.leaves.map fun (trail, value) => (Path.join trail, value)

/-- Whether a leaf path is wanted; with no paths named, every one is. Paths of containers select
nothing. -/
def wants (allowed : List String) (path : String) : Bool :=
  allowed.isEmpty || allowed.contains path

/-- The row with one more leaf, if it is wanted. No path gets into a row twice. -/
def addLeaf (allowed : List String) (row : Row) (leaf : String × Scalar) : Except FormatFault Row :=
  if wants allowed leaf.1 then
    if (row.map (·.1)).contains leaf.1 then .error (.repeatedPath leaf.1) else .ok (row ++ [leaf])
  else .ok row

/-- The path text of a child. The root has none, and its children have their segments alone. -/
def childPath : (base : Option String) → (segment : String) → String
  | none, segment => segment
  | some path, segment => path ++ "." ++ segment

mutual

/-- The row with the leaves of the node at `base` behind what is in it, one after the other. A
scalar at the root has no path. -/
def collect (allowed : List String) (base : Option String) (row : Row) : Document → Except FormatFault Row
  | .scalar value =>
    match base with
    | some path => addLeaf allowed row (path, value)
    | none => .ok row
  | .array items => collectItems allowed base 0 row items
  | .object members => collectMembers allowed base row members

def collectItems (allowed : List String) (base : Option String) :
    (position : Nat) → Row → List Document → Except FormatFault Row
  | _, row, [] => .ok row
  | position, row, item :: items => do
    let row ← collect allowed (some (childPath base (toString position))) row item
    collectItems allowed base (position + 1) row items

def collectMembers (allowed : List String) (base : Option String) (row : Row) :
    List (String × Document) → Except FormatFault Row
  | [] => .ok row
  | (key, value) :: members => do
    let row ← collect allowed (some (childPath base key)) row value
    collectMembers allowed base row members

end

/-- The wanted leaves of a container, unless two of them spell the same path. -/
def toRow (allowed : List String) (d : Document) : Except FormatFault Row :=
  match d with
  | .scalar _ => .error (.scalarRoot d.kind)
  | _ => collect allowed none [] d

/-- The row of the document at `position`, which has to be an object. -/
def toRowAt (allowed : List String) (position : Nat) (d : Document) : Except FormatFault Row :=
  if d.isObject then d.toRow allowed else .error (.rowNotObject position d.kind)

def toRows (allowed : List String) (docs : List Document) : Except FormatFault (List Row) :=
  docs.zipIdx.mapM fun (d, position) => d.toRowAt allowed position

/-- A row as an object. -/
def ofRow (row : Row) : Document :=
  .object (row.map fun (path, value) => (path, .scalar value))

end Document

end DocExport
