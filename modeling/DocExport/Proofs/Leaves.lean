import DocExport.Proofs.Collecting

/-! Leaves and rows of leaves. The leaves of a container are those of its children, in order, under
the segments that lead to them; a row has each of its paths once. -/
namespace DocExport
variable {d : Document} {docs : List Document} {allowed : List String} {row : Row}

theorem lookup_eq_some_of_mem {β : Type} {pairs : List (String × β)} {key : String} {value : β}
    (hnodup : (pairs.map (·.1)).Nodup) (hmem : (key, value) ∈ pairs) : pairs.lookup key = some value := by
  obtain ⟨left, right, rfl⟩ := List.append_of_mem hmem
  refine List.lookup_eq_some_iff.mpr ⟨left, right, rfl, fun pair hpair => ?_⟩
  rw [List.map_append, List.map_cons, List.nodup_append] at hnodup
  simpa using Ne.symm (hnodup.2.2 pair.1 (List.mem_map_of_mem hpair) key List.mem_cons_self)

namespace Document

theorem toRow_eq_ok (h : d.toRow allowed = .ok row) :
    row = d.pathLeaves.filter (fun leaf => wants allowed leaf.1) ∧ (row.map (·.1)).Nodup := by
  rcases d.scalar_or_container with ⟨value, rfl⟩ | hd
  · cases h
  · obtain ⟨hnodup, rfl⟩ := (collects_toRow hd).eq_ok_iff.mp h
    exact ⟨rfl, hnodup⟩

/-- A container becomes a row if its leaves have paths of their own. -/
theorem toRow_eq_ok_of_nodup (hd : d.kind = .array ∨ d.kind = .object) (h : (d.pathLeaves.map (·.1)).Nodup) :
    d.toRow allowed = .ok (d.pathLeaves.filter fun leaf => wants allowed leaf.1) :=
  (collects_toRow hd).eq_ok_iff.mpr ⟨h.sublist (List.filter_sublist.map _), rfl⟩

/-- With no paths named, all leaves are in the row. -/
theorem toRow_nil_eq_ok (h : d.toRow [] = .ok row) :
    (d.kind = .array ∨ d.kind = .object) ∧ row = d.pathLeaves := by
  refine ⟨?_, ?_⟩
  · cases d with
    | scalar s => cases h
    | array items => exact .inl rfl
    | object members => exact .inr rfl
  · have hall : ∀ leaf ∈ d.pathLeaves, wants [] leaf.1 = true := fun _ _ => rfl
    rw [(toRow_eq_ok h).1, List.filter_eq_self.mpr hall]

theorem toRow_eq_ok_of_toRowAt {position : Nat} (h : d.toRowAt allowed position = .ok row) :
    d.toRow allowed = .ok row := by
  unfold toRowAt at h
  split at h
  · exact h
  · cases h

theorem toRows_eq_ok {rows : List Row} (h : toRows allowed docs = .ok rows) :
    List.Forall₂ (fun d row => d.toRow allowed = .ok row) docs rows := by
  have hrows : List.Forall₂ (fun (x : Document × Nat) row => x.1.toRow allowed = .ok row) docs.zipIdx rows :=
    (mapM_eq_ok_iff.mp h).imp fun _ _ hrow => toRow_eq_ok_of_toRowAt hrow
  rw [← List.zipIdx_map_fst 0 docs]
  exact List.forall₂_map_left_iff.mpr hrows

/-- The children of a container with the segments that lead to them. -/
def children : Document → List Member
  | .scalar _ => []
  | .array items => items.zipIdx.map fun (item, position) => (toString position, item)
  | .object members => members

/-- The children that have leaves. -/
def limbs (d : Document) : List Member :=
  d.children.filter fun child => !child.2.leaves.isEmpty

private theorem memberLeaves_eq_flatMap (members : List Member) :
    memberLeaves members =
      members.flatMap fun child => child.2.leaves.map fun leaf => (child.1 :: leaf.1, leaf.2) := by
  induction members with
  | nil => rw [memberLeaves, List.flatMap_nil]
  | cons member members ih =>
    rw [memberLeaves, ih, List.flatMap_cons]

private theorem itemLeaves_eq_flatMap (position : Nat) (items : List Document) :
    itemLeaves position items =
      ((items.zipIdx position).map fun (item, position) => (toString position, item)).flatMap
        fun child => child.2.leaves.map fun leaf => (child.1 :: leaf.1, leaf.2) := by
  induction items generalizing position with
  | nil => rw [itemLeaves, List.zipIdx_nil, List.map_nil, List.flatMap_nil]
  | cons item items ih =>
    rw [itemLeaves, ih, List.zipIdx_cons, List.map_cons, List.flatMap_cons]

private theorem flatMap_filter_of_eq_nil {α β : Type} {f : α → List β} {p : α → Bool} {xs : List α}
    (h : ∀ x, p x = false → f x = []) : (xs.filter p).flatMap f = xs.flatMap f := by
  induction xs with
  | nil => rfl
  | cons x xs ih =>
    cases hp : p x with
    | true => rw [List.filter_cons_of_pos hp, List.flatMap_cons, List.flatMap_cons, ih]
    | false => rw [List.filter_cons_of_neg (by simp [hp]), List.flatMap_cons, h x hp, ih, List.nil_append]

theorem leaves_eq_flatMap_limbs (hd : d.kind = .array ∨ d.kind = .object) :
    d.leaves = d.limbs.flatMap fun child => child.2.leaves.map fun leaf => (child.1 :: leaf.1, leaf.2) := by
  rw [limbs, flatMap_filter_of_eq_nil (fun child h => by simpa using h)]
  cases d with
  | scalar s => exact absurd hd (not_container_scalar s)
  | array items => rw [leaves, itemLeaves_eq_flatMap, children]
  | object members => rw [leaves, memberLeaves_eq_flatMap, children]

theorem mem_leaves_iff {trail : Trail} {value : Scalar} (hd : d.kind = .array ∨ d.kind = .object) :
    (trail, value) ∈ d.leaves ↔
      ∃ child ∈ d.limbs, ∃ rest, trail = child.1 :: rest ∧ (rest, value) ∈ child.2.leaves := by
  rw [leaves_eq_flatMap_limbs hd, List.mem_flatMap]
  constructor
  · rintro ⟨child, hchild, hleaf⟩
    obtain ⟨⟨rest, leaf⟩, hrest, heq⟩ := List.mem_map.mp hleaf
    cases heq
    exact ⟨child, hchild, rest, rfl, hrest⟩
  · rintro ⟨child, hchild, rest, rfl, hrest⟩
    exact ⟨child, hchild, List.mem_map.mpr ⟨_, hrest, rfl⟩⟩

/-- Only a scalar is a leaf of itself. -/
theorem nil_mem_leaves_iff {value : Scalar} : ([], value) ∈ d.leaves ↔ d = .scalar value := by
  rcases d.scalar_or_container with ⟨own, rfl⟩ | hd
  · rw [leaves, List.mem_singleton, Prod.mk.injEq, scalar.injEq, eq_comm (a := own)]
    exact and_iff_right rfl
  · rw [mem_leaves_iff hd]
    constructor
    · rintro ⟨_, _, _, hcons, _⟩
      cases hcons
    · rintro rfl
      exact absurd hd (not_container_scalar value)

/-- Other leaves are those of the children, behind the segments that lead to the children. -/
theorem cons_mem_leaves_iff {segment : String} {rest : Trail} {value : Scalar} :
    (segment :: rest, value) ∈ d.leaves ↔ ∃ child, (segment, child) ∈ d.children ∧ (rest, value) ∈ child.leaves := by
  rcases d.scalar_or_container with ⟨own, rfl⟩ | hd
  · simp [leaves, children]
  · rw [mem_leaves_iff hd]
    constructor
    · rintro ⟨child, hchild, rest, hcons, hleaf⟩
      cases hcons
      exact ⟨child.2, List.mem_of_mem_filter hchild, hleaf⟩
    · rintro ⟨child, hchild, hleaf⟩
      have hlimb : (segment, child) ∈ d.limbs := by
        refine List.mem_filter.mpr ⟨hchild, ?_⟩
        simpa using List.ne_nil_of_mem hleaf
      exact ⟨_, hlimb, rest, rfl, hleaf⟩

end Document
end DocExport
