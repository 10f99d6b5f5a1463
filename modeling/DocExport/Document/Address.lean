import DocExport.Failure

/-! Reading and writing the node at a path. Reading through a missing node or a scalar finds
nothing; writing makes the containers that are missing. -/
namespace DocExport.Document

/-- The index that the first segment of `path` spells. -/
def arrayIndex (segment : String) (path : Path) : Except AddressFault Nat :=
  if Path.isNegativeIndex segment then .error (.negativeIndex segment path)
  else if !Path.isIndex segment then .error (.notAnIndex segment path)
  else if Path.indexBound ≤ Path.indexValue segment then .error (.indexTooLarge segment path)
  else .ok (Path.indexValue segment)

/-- The node that `segments` lead to, none if there is no such node. -/
def follow (trailingDot : Bool) : List String → Document → Except AddressFault (Option Document)
  | [], d => .ok (some d)
  | segment :: rest, .object members =>
    match members.lookup segment with
    | some child => follow trailingDot rest child
    | none => .ok none
  | segment :: rest, .array items =>
    match arrayIndex segment ⟨segment :: rest, trailingDot⟩ with
    | .error fault => .error fault
    | .ok index =>
      match items[index]? with
      | some child => follow trailingDot rest child
      | none => .ok none
  | _ :: _, .scalar _ => .ok none

def get (d : Document) (path : Path) : Except AddressFault (Option Document) :=
  d.follow path.trailingDot path.segments

/-- The document after a write, and what stopped the write if it failed. A failed write may leave
new containers and null slots behind, but not its value. -/
structure Edit where
  document : Document
  fault : Option AddressFault

/-- What a null slot becomes before `segments` are placed in it. -/
def vivify : List String → Document → Document
  | segment :: _, .null => if Path.isIndex segment then .array [] else .object []
  | _, d => d

def place (trailingDot : Bool) (value : Document) : List String → Document → Edit
  | [], _ => ⟨value, none⟩
  | segment :: rest, .object members =>
    let edit := place trailingDot value rest (vivify rest ((members.lookup segment).getD .null))
    ⟨.object (setMember segment edit.document members), edit.fault⟩
  | segment :: rest, .array items =>
    let path : Path := ⟨segment :: rest, trailingDot⟩
    match arrayIndex segment path with
    | .error fault => ⟨.array items, some fault⟩
    | .ok index =>
      if indexLimit < index then ⟨.array items, some (.indexOverLimit index path)⟩
      else
        let edit := place trailingDot value rest (vivify rest (items[index]?.getD .null))
        ⟨.array ((items.rightpad (index + 1) .null).set index edit.document), edit.fault⟩
  | segment :: rest, .scalar s =>
    ⟨.scalar s, some (.insideScalar (kind (.scalar s)) ⟨segment :: rest, trailingDot⟩)⟩

def set (d : Document) (path : Path) (value : Document) : Edit :=
  place path.trailingDot value path.segments d

end DocExport.Document
