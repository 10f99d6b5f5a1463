import DocExport.Proofs.Lasting

/-! How long arrays get. A write pads an array up to the greatest index that it may use and no further, so
arrays that are no longer than that stay so, however many writes there are and wherever they are stopped. No
length of a padded array passes the size of a word, and the slot that is written to is always there. -/
namespace DocExport.Document
open DocExport.Path
variable {d value : Document} {items : List Document} {index : Nat}

/-- An array has 65536 items at most, as many as one has that is padded up to the limit of indices. -/
def IsBounded : Document → Prop
  | .array items => items.length ≤ indexLimit + 1
  | _ => True

instance : DecidablePred IsBounded
  | .scalar _ => isTrue trivial
  | .array items => inferInstanceAs (Decidable (items.length ≤ indexLimit + 1))
  | .object _ => isTrue trivial

/-- Writes to path texts, each to what the one before it has left, stopped or not. -/
def edits (d : Document) : List (String × Document) → List Edit
  | [] => []
  | (text, value) :: writes =>
    let edit := d.set (.ofText text) value
    edit :: edit.document.edits writes

/-- The items with a slot for `index`, none if their number is no word then. -/
def padTo? (items : List Document) (index : Nat) : Option (List Document) :=
  if items.length ≤ index then
    if index + 1 < indexBound then some (items.rightpad (index + 1) .null) else none
  else some items

/-- A write that computes lengths in words and looks at every slot before it touches it. None if one of
both goes wrong. -/
def place? (trailingDot : Bool) (value : Document) : List String → Document → Option Edit
  | [], _ => some ⟨value, none⟩
  | segment :: rest, .object members => do
    let edit ← place? trailingDot value rest (vivify rest ((members.lookup segment).getD .null))
    return ⟨.object (setMember segment edit.document members), edit.fault⟩
  | segment :: rest, .array items =>
    let path : Path := ⟨segment :: rest, trailingDot⟩
    match arrayIndex segment path with
    | .error fault => some ⟨.array items, some fault⟩
    | .ok index =>
      if indexLimit < index then some ⟨.array items, some (.indexOverLimit index path)⟩
      else do
        let padded ← padTo? items index
        let content ← padded[index]?
        let edit ← place? trailingDot value rest (vivify rest content)
        return ⟨.array (padded.set index edit.document), edit.fault⟩
  | segment :: rest, .scalar s =>
    some ⟨.scalar s, some (.insideScalar (kind (.scalar s)) ⟨segment :: rest, trailingDot⟩)⟩

def set? (d : Document) (path : Path) (value : Document) : Option Edit :=
  place? path.trailingDot value path.segments d

def edits? (d : Document) : List (String × Document) → Option (List Edit)
  | [] => some []
  | (text, value) :: writes => do
    let edit ← d.set? (.ofText text) value
    let edits ← edit.document.edits? writes
    return edit :: edits

theorem padTo?_of_le (h : index ≤ indexLimit) : padTo? items index = some (items.rightpad (index + 1) .null) := by
  have hword : index + 1 < indexBound := Nat.lt_of_le_of_lt (Nat.succ_le_succ h) (by decide)
  by_cases hshort : items.length ≤ index
  · rw [padTo?, if_pos hshort, if_pos hword]
  · rw [padTo?, if_neg hshort, List.rightpad, Nat.sub_eq_zero_of_le (Nat.not_le.mp hshort), List.replicate_zero,
      List.append_nil]

/-- After padding the slot is there, with what was in it before or a null. -/
theorem getElem?_pad (items : List Document) (index : Nat) :
    (items.rightpad (index + 1) .null)[index]? = some ((items[index]?).getD .null) := by
  have hlength : index < (items.rightpad (index + 1) Document.null).length := by
    rw [List.length_rightpad]
    exact Nat.lt_of_lt_of_le (Nat.lt_succ_self index) (Nat.le_max_left ..)
  rw [← getElem?_pad_getD items (index + 1) index, List.getElem?_eq_getElem hlength, Option.getD_some]

/-- The limit on indices guards every length and every slot. -/
theorem place?_eq (trailingDot : Bool) (value : Document) (segments : List String) (d : Document) :
    place? trailingDot value segments d = some (place trailingDot value segments d) := by
  induction segments generalizing d with
  | nil => rfl
  | cons segment rest ih =>
    cases d with
    | scalar s => rfl
    | array items =>
      rw [place?, place]
      cases arrayIndex segment ⟨segment :: rest, trailingDot⟩ with
      | error fault => rfl
      | ok index =>
        by_cases hlimit : indexLimit < index
        · simp only [if_pos hlimit]
        · simp only [if_neg hlimit, padTo?_of_le (Nat.not_lt.mp hlimit), getElem?_pad, ih, Option.bind_eq_bind,
            Option.bind_some, Option.pure_def]
    | object members => simp only [place?, place, ih, Option.bind_eq_bind, Option.bind_some, Option.pure_def]

theorem edits?_eq (d : Document) (writes : List (String × Document)) : d.edits? writes = some (d.edits writes) := by
  induction writes generalizing d with
  | nil => rfl
  | cons write writes ih =>
    obtain ⟨text, value⟩ := write
    have hset : d.set? (.ofText text) value = some (d.set (.ofText text) value) := place?_eq ..
    simp only [edits?, edits, hset, ih, Option.bind_eq_bind, Option.bind_some, Option.pure_def]

/-- A slot that a write may use is one that a bounded array may have. -/
theorem lasting_isBounded : Lasting IsBounded where
  null := trivial
  array := Nat.zero_le _
  object := trivial
  put {d segment slot} child hslot h := by
    cases d with
    | scalar s => cases s <;> cases hslot
    | array items =>
      obtain ⟨⟨-, hlimit⟩, hitem⟩ := Option.ite_none_right_eq_some.mp hslot
      cases hitem
      rw [put, IsBounded, List.length_set, List.length_rightpad]
      exact Nat.max_le.mpr ⟨Nat.succ_le_succ hlimit, h⟩
    | object members =>
      cases hslot
      trivial

/-- One write, stopped or not. -/
theorem bounded_place (h : d.Everywhere IsBounded) (hvalue : value.Everywhere IsBounded) (trailingDot : Bool)
    (segments : List String) : (place trailingDot value segments d).document.Everywhere IsBounded :=
  lasting_isBounded.everywhere_place h hvalue trailingDot segments

/-- If no array of a document and of the values that are written has more than 65536 items, then none has
after any of the writes, whichever of them are stopped. All of them go the same way if they are stopped where a
length is no word or a slot is out of bounds: that never is. -/
theorem edits_bounded (d : Document) (writes : List (String × Document)) (h : d.Everywhere IsBounded)
    (hvalues : ∀ write ∈ writes, write.2.Everywhere IsBounded) :
    (∀ edit ∈ d.edits writes, edit.document.Everywhere IsBounded) ∧ d.edits? writes = some (d.edits writes) := by
  refine ⟨?_, edits?_eq d writes⟩
  induction writes generalizing d with
  | nil => exact nofun
  | cons write writes ih =>
    obtain ⟨hvalue, hvalues⟩ := List.forall_mem_cons.mp hvalues
    have hedit : (d.set (.ofText write.1) write.2).document.Everywhere IsBounded := bounded_place h hvalue _ _
    exact List.forall_mem_cons.mpr ⟨hedit, ih _ hedit hvalues⟩

/-- Padding up to the limit, two writes that are stopped, and a copied array that is written into. -/
theorem edits_bounded_limit :
    let d := object [("a", .array [.null]), ("s", .scalar (.bool true))]
    let writes := [("a.65535", .array [.null, .null]), ("b.x.65536", .null), ("s.0", .null),
      ("a.65535.65535", .scalar (.string "v"))]
    d.Everywhere IsBounded ∧ (∀ write ∈ writes, write.2.Everywhere IsBounded) ∧
      (∀ edit ∈ d.edits writes, edit.document.Everywhere IsBounded) ∧ d.edits? writes = some (d.edits writes) := by
  intro d writes
  have hd : d.Everywhere IsBounded := by decide
  have hvalues : ∀ write ∈ writes, write.2.Everywhere IsBounded := by decide
  exact ⟨hd, hvalues, edits_bounded d writes hd hvalues⟩

end DocExport.Document
