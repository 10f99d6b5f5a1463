import DocExport.Proofs.Copy

/-! Walks along a path: the slots that its segments name, and the nodes that it meets on its way. -/
namespace DocExport
open DocExport.Path

namespace Document
variable {d node child found : Document} {slot : Slot} {segment : String}
  {front rest segments : List String} {trailingDot : Bool}

/-- A path that finds something goes on in the slot that its first segment names. -/
theorem exists_read?_of_follow (h : follow trailingDot (segment :: rest) d = .ok (some found)) :
    ∃ slot child, d.kind.read? segment = some slot ∧ d.content? slot = some child ∧
      follow trailingDot rest child = .ok (some found) := by
  have hread : ∃ slot, d.kind.read? segment = some slot := by
    cases d with
    | scalar s => cases h
    | array items =>
      simp only [follow] at h
      cases hindex : arrayIndex segment ⟨segment :: rest, trailingDot⟩ with
      | error fault => simp [hindex] at h
      | ok position =>
        obtain ⟨hdigits, rfl, hbound⟩ := arrayIndex_eq_ok_iff.mp hindex
        exact ⟨_, if_pos ⟨hdigits, hbound⟩⟩
    | object members => exact ⟨.key segment, rfl⟩
  obtain ⟨slot, hslot⟩ := hread
  rw [follow_cons_of_read? hslot] at h
  cases hchild : d.content? slot with
  | none => simp [hchild] at h
  | some child => exact ⟨slot, child, hslot, hchild, by simpa [hchild] using h⟩

/-- The final dot of the front part shows in messages only. -/
theorem follow_append (h : follow false front d = .ok (some node)) (trailingDot : Bool) (rest : List String) :
    follow trailingDot (front ++ rest) d = follow trailingDot rest node := by
  induction front generalizing d with
  | nil =>
    cases h
    rfl
  | cons segment front ih =>
    obtain ⟨slot, child, hslot, hchild, hnode⟩ := exists_read?_of_follow h
    rw [List.cons_append, follow_cons_of_read? hslot, hchild]
    exact ih hnode

theorem kind_ne_null_of_follow (h : follow trailingDot (segment :: rest) d = .ok (some found)) : d.kind ≠ .null := by
  intro hnull
  rw [eq_null_of_kind hnull] at h
  cases h

theorem content?_eq_some (h : d.content slot ≠ .null) : d.content? slot = some (d.content slot) := by
  cases hchild : d.content? slot with
  | none => exact absurd (by rw [content, hchild]; rfl) h
  | some child => rw [content, hchild, Option.getD_some]

/-- What is in a slot stays there when another one is filled. -/
theorem content?_put_of_ne {own : Slot} (hne : own ≠ slot) (h : d.content? own = some child) (other : Document) :
    (d.put slot other).content? own = some child := by
  obtain ⟨kept, hkept⟩ := Option.isSome_iff_exists.mp
    (isSome_content?_put slot other (Option.isSome_iff_exists.mpr ⟨child, h⟩))
  have hcontent : (d.put slot other).content own = d.content own := content_put_of_ne hne
  rw [content, content, hkept, h] at hcontent
  exact hkept.trans (congrArg some hcontent)

/-- The path comes to a node with `segment` still to be applied to it and `rest` behind that. -/
def Meets (d : Document) (segments : List String) (node : Document) (segment : String) (rest : List String) : Prop :=
  ∃ front, segments = front ++ segment :: rest ∧ d.get ⟨front, false⟩ = .ok (some node)

theorem meets_self (d : Document) (segment : String) (rest : List String) :
    d.Meets (segment :: rest) d segment rest :=
  ⟨[], rfl, rfl⟩

theorem not_meets_nil : ¬ d.Meets [] node segment rest := by
  rintro ⟨front, h, -⟩
  simp at h

/-- Nothing is met behind a null. -/
theorem eq_null_of_meets (h : null.Meets segments node segment rest) : node = .null := by
  obtain ⟨front, -, hnode⟩ := h
  cases front with
  | nil =>
    cases hnode
    rfl
  | cons first front => cases hnode

/-- What is met behind the first segment is met in the slot that it names. -/
theorem meets_cons_iff {first : String} (hslot : d.kind.slot? first = some slot) :
    d.Meets (first :: segments) node segment rest ↔
      (node = d ∧ segment = first ∧ rest = segments) ∨
        ∃ child, d.content? slot = some child ∧ child.Meets segments node segment rest := by
  constructor
  · rintro ⟨front, hsegments, hnode⟩
    cases front with
    | nil =>
      cases hnode
      cases hsegments
      exact .inl ⟨rfl, rfl, rfl⟩
    | cons own front =>
      cases hsegments
      rw [get, follow_cons hslot] at hnode
      cases hchild : d.content? slot with
      | none => simp [hchild] at hnode
      | some child =>
        rw [hchild] at hnode
        exact .inr ⟨child, rfl, front, rfl, hnode⟩
  · rintro (⟨rfl, rfl, rfl⟩ | ⟨child, hchild, front, rfl, hnode⟩)
    · exact meets_self _ _ _
    · refine ⟨first :: front, rfl, ?_⟩
      rw [get, follow_cons hslot, hchild]
      exact hnode

end Document
end DocExport
