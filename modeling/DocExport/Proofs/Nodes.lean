import DocExport.Proofs.Address
import DocExport.Proofs.Leaves
import DocExport.Proofs.Path

/-! The nodes of a document, what holds at all of them, and the segments that lead from a node to
its children. Facts about whole documents are proved from the children of a node to the node. -/
namespace DocExport.Document
open DocExport.Path
variable {d child : Document} {member : Member} {segment : String} {rest : List String}
  {trailingDot : Bool} {P : Document → Prop}

mutual

/-- The document and all that is below it. -/
def nodes : Document → List Document
  | .scalar value => [.scalar value]
  | .array items => .array items :: itemNodes items
  | .object members => .object members :: memberNodes members

def itemNodes : List Document → List Document
  | [] => []
  | item :: items => item.nodes ++ itemNodes items

def memberNodes : List (String × Document) → List Document
  | [] => []
  | (_, value) :: members => value.nodes ++ memberNodes members

end

def keys : Document → List String
  | .object members => members.map (·.1)
  | _ => []

/-- An array without items or an object without members. -/
def isBare : Document → Bool
  | .array [] | .object [] => true
  | _ => false

/-- Every node of the document is as `P` says. -/
def Everywhere (P : Document → Prop) (d : Document) : Prop := ∀ node ∈ d.nodes, P node

instance [DecidablePred P] : Decidable (d.Everywhere P) := inferInstanceAs (Decidable (∀ node ∈ d.nodes, P node))

/-- What holds of every document that can be held: an object has each key once, and the items of an
array are counted by words. -/
structure Proper (d : Document) : Prop where
  distinct : d.Everywhere fun node => node.keys.Nodup
  counted : d.Everywhere fun node => node.kind = .array → node.children.length ≤ indexBound

private theorem itemNodes_eq_flatMap (items : List Document) : itemNodes items = items.flatMap nodes := by
  induction items with
  | nil => rw [itemNodes, List.flatMap_nil]
  | cons item items ih => rw [itemNodes, ih, List.flatMap_cons]

private theorem memberNodes_eq_flatMap (members : List Member) :
    memberNodes members = members.flatMap fun child => child.2.nodes := by
  induction members with
  | nil => rw [memberNodes, List.flatMap_nil]
  | cons member members ih => rw [memberNodes, ih, List.flatMap_cons]

theorem map_snd_children_array (items : List Document) : (array items).children.map (·.2) = items := by
  rw [children, List.map_map]
  exact List.zipIdx_map_fst 0 items

theorem nodes_eq_cons (d : Document) : d.nodes = d :: d.children.flatMap fun child => child.2.nodes := by
  cases d with
  | scalar value => rw [nodes, children, List.flatMap_nil]
  | array items =>
    have h : ((array items).children.map (·.2)).flatMap nodes =
        (array items).children.flatMap fun child => child.2.nodes := List.flatMap_map ..
    rw [map_snd_children_array] at h
    rw [nodes, itemNodes_eq_flatMap, h]
  | object members => rw [nodes, memberNodes_eq_flatMap, children]

theorem everywhere_iff : d.Everywhere P ↔ P d ∧ ∀ child ∈ d.children, child.2.Everywhere P := by
  simp only [Everywhere, nodes_eq_cons d, List.forall_mem_cons, List.forall_mem_flatMap]

theorem everywhere_array_iff {items : List Document} :
    (array items).Everywhere P ↔ P (array items) ∧ ∀ item ∈ items, item.Everywhere P := by
  have hitems : (∀ item ∈ items, item.Everywhere P) ↔ ∀ child ∈ (array items).children, child.2.Everywhere P := by
    conv_lhs => rw [← map_snd_children_array items, List.forall_mem_map]
  rw [everywhere_iff, hitems]

theorem Proper.of_mem_children (h : d.Proper) (hmem : member ∈ d.children) : member.2.Proper :=
  ⟨(everywhere_iff.mp h.distinct).2 member hmem, (everywhere_iff.mp h.counted).2 member hmem⟩

private theorem sizeOf_lt_of_mem_children (h : member ∈ d.children) : sizeOf member.2 < sizeOf d := by
  cases d with
  | scalar value => exact absurd h List.not_mem_nil
  | array items =>
    have hitem : member.2 ∈ items := map_snd_children_array items ▸ List.mem_map_of_mem h
    have hlt := List.sizeOf_lt_of_mem hitem
    simp only [array.sizeOf_spec]
    omega
  | object members =>
    have hlt := List.sizeOf_lt_of_mem (show member ∈ members from h)
    obtain ⟨key, value⟩ := member
    simp only [object.sizeOf_spec, Prod.mk.sizeOf_spec] at hlt ⊢
    omega

/-- What holds of a document if it holds of its children holds of every document. -/
@[elab_as_elim]
theorem induction_children {motive : Document → Prop}
    (node : ∀ d, (∀ child ∈ d.children, motive child.2) → motive d) (d : Document) : motive d :=
  node d fun child _h => induction_children node child.2
termination_by sizeOf d
decreasing_by exact sizeOf_lt_of_mem_children _h

theorem mem_children_array_iff {items : List Document} :
    member ∈ (array items).children ↔
      ∃ position : Nat, items[position]? = some member.2 ∧ toString position = member.1 := by
  obtain ⟨segment, child⟩ := member
  simp only [children, List.mem_map, Prod.exists, List.mk_mem_zipIdx_iff_getElem?, Prod.mk.injEq]
  constructor
  · rintro ⟨item, position, hitem, rfl, rfl⟩
    exact ⟨position, hitem, rfl⟩
  · rintro ⟨position, hitem, rfl⟩
    exact ⟨child, position, hitem, rfl, rfl⟩

/-- Children have segments of their own if the keys are distinct. -/
theorem nodup_segments (h : d.keys.Nodup) : (d.children.map (·.1)).Nodup := by
  cases d with
  | scalar value => exact List.nodup_nil
  | array items =>
    have hpositions : (array items).children.map (·.1) = (items.zipIdx.map (·.2)).map toString := by
      rw [children, List.map_map, List.map_map]
      rfl
    have hinj : Function.Injective (toString : Nat → String) :=
      Function.LeftInverse.injective indexValue_toString
    rw [hpositions]
    exact (List.zipIdx_map_snd 0 items ▸ List.nodup_range').map hinj
  | object members => exact h

/-- A child has a key or the decimal spelling of its position. -/
theorem mem_keys_or_isIndex (h : member ∈ d.children) : member.1 ∈ d.keys ∨ isIndex member.1 = true := by
  cases d with
  | scalar value => exact absurd h List.not_mem_nil
  | array items =>
    obtain ⟨position, -, hspelling⟩ := mem_children_array_iff.mp h
    exact .inr (hspelling ▸ isIndex_toString position)
  | object members => exact .inl (List.mem_map_of_mem h)

theorem indexValue_lt_length (hd : d.kind = .array) (h : member ∈ d.children) :
    indexValue member.1 < d.children.length := by
  cases d with
  | scalar value => exact absurd h List.not_mem_nil
  | array items =>
    obtain ⟨position, hitem, hspelling⟩ := mem_children_array_iff.mp h
    obtain ⟨hposition, -⟩ := List.getElem?_eq_some_iff.mp hitem
    rw [← hspelling, indexValue_toString, children, List.length_map, List.length_zipIdx]
    exact hposition
  | object members => cases hd

/-- A path goes on in the child that its first segment leads to. -/
theorem follow_of_mem_children {rest : List String} (keys : (d.children.map (·.1)).Nodup)
    (hmem : (segment, child) ∈ d.children) (hbound : d.kind = .array → indexValue segment < indexBound) :
    follow trailingDot (segment :: rest) d = follow trailingDot rest child := by
  cases d with
  | scalar s => exact absurd hmem List.not_mem_nil
  | array items =>
    obtain ⟨position, hget, rfl⟩ := mem_children_array_iff.mp hmem
    have hok : arrayIndex (toString position) ⟨toString position :: rest, trailingDot⟩ = .ok position :=
      arrayIndex_eq_ok_iff.mpr ⟨isIndex_toString position, indexValue_toString position,
        indexValue_toString position ▸ hbound rfl⟩
    simp only [follow, hok, hget]
  | object members =>
    have hlookup : members.lookup segment = some child := lookup_eq_some_of_mem keys hmem
    simp only [follow, hlookup]

/-- A path that finds something leads to a child first, if its index has no zeros in front. -/
theorem exists_child_of_follow {found : Document} (hpad : isPadded segment = false)
    (h : follow trailingDot (segment :: rest) d = .ok (some found)) :
    ∃ child, (segment, child) ∈ d.children ∧ follow trailingDot rest child = .ok (some found) := by
  cases d with
  | scalar value => cases h
  | array items =>
    simp only [follow] at h
    cases hindex : arrayIndex segment ⟨segment :: rest, trailingDot⟩ with
    | error fault => simp [hindex] at h
    | ok position =>
      obtain ⟨hdigits, rfl, -⟩ := arrayIndex_eq_ok_iff.mp hindex
      cases hitem : items[indexValue segment]? with
      | none => simp [hindex, hitem] at h
      | some item =>
        simp only [hindex, hitem] at h
        exact ⟨item, mem_children_array_iff.mpr ⟨_, hitem, toString_indexValue hdigits hpad⟩, h⟩
  | object members =>
    simp only [follow] at h
    cases hmember : members.lookup segment with
    | none => simp [hmember] at h
    | some value =>
      simp only [hmember] at h
      obtain ⟨left, right, rfl, -⟩ := List.lookup_eq_some_iff.mp hmember
      exact ⟨value, List.mem_append_right left List.mem_cons_self, h⟩

end DocExport.Document
