import DocExport.Proofs.Nodes
import DocExport.Proofs.Selection

/-! Restricting a document to the paths of its own leaves. The leaves come back exactly if their
copies fit into a fresh object; they do in documents whose keys can be spelled in a path and do not
look like indices next to others that do not. -/
namespace DocExport
open DocExport.Path

/-- Every segment has a slot of its own in a container of this kind. -/
structure Kind.Seats (kind : Kind) (segments : List String) : Prop where
  seated : ∀ segment ∈ segments, (kind.slot? segment).isSome
  nodup : (segments.map kind.slot?).Nodup

namespace Document
variable {d child : Document} {kind : Kind} {slot : Slot} {segment : String} {trail : Trail} {value : Scalar}
  {trailingDot : Bool}

/-- What can stand below the root of a document whose leaves come back. Its keys are different and
have no dot, no scalar has the empty key, and the first child with leaves decides between array and
object as all others need it. Children without leaves can be anything. -/
inductive Spelled : Document → Prop where
  | scalar (value : Scalar) : Spelled (.scalar value)
  | container {d : Document} (hd : d.kind = .array ∨ d.kind = .object) (keys : (d.children.map (·.1)).Nodup)
    (seats : ∀ first ∈ d.limbs.head?, (Kind.opening first.1).Seats (d.limbs.map (·.1)))
    (dotless : ∀ child ∈ d.limbs, '.' ∉ child.1.toList)
    (named : ∀ child ∈ d.limbs, child.1 = "" → child.2.kind = .array ∨ child.2.kind = .object)
    (limbs : ∀ child ∈ d.limbs, Spelled child.2) : Spelled d

/-- A document whose leaves come back. Its root becomes an object, so keys of all forms go together
there and the empty one can have a scalar. -/
structure Plain (d : Document) : Prop where
  keys : (d.children.map (·.1)).Nodup
  bounded : d.kind = .array → ∀ child ∈ d.limbs, indexValue child.1 < indexBound
  dotless : ∀ child ∈ d.limbs, '.' ∉ child.1.toList
  limbs : ∀ child ∈ d.limbs, Spelled child.2

theorem mem_of_mem_limbs {member : Member} (h : member ∈ d.limbs) : member ∈ d.children :=
  List.mem_of_mem_filter h

/-- The first item with leaves opens an array, which has no seats past its limit. -/
theorem indexValue_lt_of_seats (seats : ∀ first ∈ d.limbs.head?, (Kind.opening first.1).Seats (d.limbs.map (·.1)))
    (hd : d.kind = .array) {member : Member} (hmem : member ∈ d.limbs) : indexValue member.1 < indexBound := by
  obtain ⟨first, more, hlimbs⟩ := List.exists_cons_of_ne_nil (List.ne_nil_of_mem hmem)
  have hhead : first ∈ d.limbs.head? := by rw [hlimbs]; rfl
  have hfirst : isIndex first.1 = true := by
    cases d with
    | scalar s => cases s <;> cases hd
    | array items =>
      obtain ⟨⟨item, position⟩, -, rfl⟩ := List.mem_map.mp (mem_of_mem_limbs (List.mem_of_head? hhead))
      exact isIndex_toString position
    | object members => cases hd
  have hslot := (seats first hhead).seated member.1 (List.mem_map_of_mem hmem)
  simp only [Kind.opening, hfirst, if_true, Kind.slot?, Option.isSome_ite] at hslot
  exact Nat.lt_of_le_of_lt hslot.2 indexLimit_lt_indexBound

/-- The leaves of a document are what is found at their trails. -/
theorem follow_of_mem_leaves (h : Spelled d) (hleaf : (trail, value) ∈ d.leaves) :
    follow trailingDot trail d = .ok (some (.scalar value)) := by
  induction h generalizing trail with
  | scalar s =>
    rw [leaves, List.mem_singleton] at hleaf
    cases hleaf
    rfl
  | container hd keys seats dotless named limbs ih =>
    obtain ⟨child, hchild, rest, rfl, hrest⟩ := (mem_leaves_iff hd).mp hleaf
    rw [follow_of_mem_children keys (mem_of_mem_limbs hchild) fun hk => indexValue_lt_of_seats seats hk hchild]
    exact ih child hchild hrest

/-- Trails of leaves can be spelled: no segment has a dot, and no path text ends in a dot. -/
theorem trail_of_mem_leaves (h : Spelled d) (hleaf : (trail, value) ∈ d.leaves) :
    (∀ segment ∈ trail, '.' ∉ segment.toList) ∧ trail.getLast? ≠ some "" := by
  induction h generalizing trail with
  | scalar s =>
    rw [leaves, List.mem_singleton] at hleaf
    cases hleaf
    exact ⟨fun _ hmem => absurd hmem List.not_mem_nil, by simp⟩
  | container hd keys seats dotless named limbs ih =>
    obtain ⟨child, hchild, rest, rfl, hrest⟩ := (mem_leaves_iff hd).mp hleaf
    obtain ⟨hdots, hlast⟩ := ih child hchild hrest
    refine ⟨List.forall_mem_cons.mpr ⟨dotless child hchild, hdots⟩, ?_⟩
    cases rest with
    | cons next rest => rwa [List.getLast?_cons_cons]
    | nil =>
      rw [List.getLast?_singleton]
      intro hempty
      obtain ⟨_, _, _, hcons, _⟩ := (mem_leaves_iff (named child hchild (Option.some.inj hempty))).mp hrest
      cases hcons

/-- The leaves, copied to their trails. -/
def leafCopies (d : Document) : List Copy :=
  d.leaves.map fun leaf => ⟨leaf.1, .scalar leaf.2, .scalar leaf.2⟩

theorem leafCopies_eq_flatMap_limbs (hd : d.kind = .array ∨ d.kind = .object) :
    d.leafCopies = d.limbs.flatMap fun child => child.2.leafCopies.map (Copy.under child.1) := by
  simp only [leafCopies, leaves_eq_flatMap_limbs hd, List.map_flatMap, List.map_map]
  rfl

private theorem branch_map_under (kind : Kind) (slot : Slot) (segment : String) (copies : List Copy) :
    Copy.branch kind slot (copies.map (Copy.under segment)) =
      if kind.slot? segment = some slot then copies else [] := by
  have hbelow : Copy.below? kind slot ∘ Copy.under segment =
      fun copy => if kind.slot? segment = some slot then some copy else none := by
    funext copy
    rfl
  rw [Copy.branch, List.filterMap_map, hbelow]
  by_cases h : kind.slot? segment = some slot <;> simp [h]

/-- The copies of the leaves that lead into a slot are those of the children seated there. -/
theorem branch_leafCopies (hd : d.kind = .array ∨ d.kind = .object) (kind : Kind) (slot : Slot) :
    Copy.branch kind slot d.leafCopies =
      (d.limbs.filter fun child => kind.slot? child.1 = some slot).flatMap fun child => child.2.leafCopies := by
  rw [leafCopies_eq_flatMap_limbs hd]
  induction d.limbs with
  | nil => rfl
  | cons child limbs ih =>
    rw [List.flatMap_cons, Copy.branch, List.filterMap_append, ← Copy.branch, ← Copy.branch, ih,
      branch_map_under, List.filter_cons]
    by_cases h : kind.slot? child.1 = some slot <;> simp [h]

/-- Children with seats of their own fit into one container if each fits by itself. -/
theorem fits_branch_leafCopies (hd : d.kind = .array ∨ d.kind = .object)
    (hnodup : ((d.limbs.map (·.1)).map kind.slot?).Nodup)
    (h : ∀ child ∈ d.limbs, Copy.Fits child.2.leafCopies) (slot : Slot) :
    Copy.Fits (Copy.branch kind slot d.leafCopies) := by
  rw [branch_leafCopies hd]
  cases hseated : d.limbs.filter fun child => kind.slot? child.1 = some slot with
  | nil => exact .nothing
  | cons child more =>
    have hmem {other : Member} (hother : other ∈ child :: more) :
        other ∈ d.limbs ∧ kind.slot? other.1 = some slot := by
      rw [← hseated] at hother
      simpa using hother
    cases more with
    | nil =>
      rw [List.flatMap_singleton]
      exact h child (hmem List.mem_cons_self).1
    | cons other more =>
      have hsub : (child :: other :: more).Sublist d.limbs := hseated ▸ List.filter_sublist
      have hpair := hnodup.sublist ((hsub.map (·.1)).map kind.slot?)
      have heq : kind.slot? child.1 = kind.slot? other.1 := by
        rw [(hmem List.mem_cons_self).2, (hmem (List.mem_cons_of_mem _ List.mem_cons_self)).2]
      simp [heq] at hpair

theorem leafCopies_scalar (value : Scalar) :
    (scalar value).leafCopies = [⟨[], .scalar value, .scalar value⟩] := by
  rw [leafCopies, leaves]
  rfl

/-- The first leaf is below the first child that has leaves. -/
theorem exists_head_leafCopies (hd : d.kind = .array ∨ d.kind = .object) {first : Member} {more : List Member}
    (hlimbs : d.limbs = first :: more) :
    ∃ leaf : Trail × Scalar, d.leafCopies.head? = some ⟨first.1 :: leaf.1, .scalar leaf.2, .scalar leaf.2⟩ := by
  have hfirst : first ∈ d.limbs := hlimbs ▸ List.mem_cons_self
  obtain ⟨leaf, leaves, hleaves⟩ : ∃ leaf leaves, first.2.leaves = leaf :: leaves := by
    refine List.exists_cons_of_ne_nil ?_
    simpa using (List.mem_filter.mp hfirst).2
  refine ⟨leaf, ?_⟩
  rw [leafCopies_eq_flatMap_limbs hd, hlimbs, List.flatMap_cons, leafCopies, hleaves]
  rfl

/-- Documents that can be spelled can be copied leaf by leaf. -/
theorem fits_leafCopies (h : Spelled d) : Copy.Fits d.leafCopies := by
  induction h with
  | scalar s =>
    rw [leafCopies_scalar]
    exact .value rfl (by simp)
  | @container d hd keys seats dotless named limbs ih =>
    cases hlimbs : d.limbs with
    | nil =>
      rw [leafCopies_eq_flatMap_limbs hd, hlimbs]
      exact .nothing
    | cons first more =>
      have hseats := seats first (by rw [hlimbs]; rfl)
      obtain ⟨leaf, hhead⟩ := exists_head_leafCopies hd hlimbs
      refine .container hhead rfl (fun copy hcopy => ?_) (fits_branch_leafCopies hd hseats.nodup ih)
      rw [leafCopies_eq_flatMap_limbs hd] at hcopy
      obtain ⟨child, hchild, hunder⟩ := List.mem_flatMap.mp hcopy
      obtain ⟨below, -, rfl⟩ := List.mem_map.mp hunder
      obtain ⟨slot, hslot⟩ := Option.isSome_iff_exists.mp (hseats.seated child.1 (List.mem_map_of_mem hchild))
      exact ⟨child.1, below.segments, slot, rfl, hslot⟩

/-- What is copied to the leaf paths are the leaves, if the paths are read as the trails that they
were made of. -/
theorem map_copyOf_pathLeaves (hsegments : ∀ leaf ∈ d.leaves, (ofText (join leaf.1)).segments = leaf.1)
    (hget : ∀ leaf ∈ d.leaves, d.get (.ofText (join leaf.1)) = .ok (some (.scalar leaf.2))) :
    (d.pathLeaves.map fun leaf => d.copyOf leaf.1 (.scalar leaf.2)) = d.leafCopies := by
  rw [pathLeaves, List.map_map, leafCopies]
  refine List.map_congr_left fun leaf hleaf => ?_
  simp only [Function.comp, copyOf, hsegments leaf hleaf, valueAt_of_get (hget leaf hleaf), Option.getD_some]

namespace Plain
variable (h : d.Plain) (hd : d.kind = .array ∨ d.kind = .object)
include h hd

/-- The text of a leaf path is read as the trail that it was made of. -/
theorem segments_of_mem_leaves (hleaf : (trail, value) ∈ d.leaves) : (ofText (join trail)).segments = trail := by
  obtain ⟨child, hchild, rest, rfl, hrest⟩ := (mem_leaves_iff hd).mp hleaf
  obtain ⟨hdots, hlast⟩ := trail_of_mem_leaves (h.limbs child hchild) hrest
  have hdotless : ∀ segment ∈ child.1 :: rest, '.' ∉ segment.toList :=
    List.forall_mem_cons.mpr ⟨h.dotless child hchild, hdots⟩
  refine segments_ofText_join (List.cons_ne_nil child.1 rest) hdotless ?_
  cases rest with
  | nil => exact .inl rfl
  | cons next rest => exact .inr (by rwa [List.getLast?_cons_cons])

theorem get_of_mem_leaves (hleaf : (trail, value) ∈ d.leaves) :
    d.get (.ofText (join trail)) = .ok (some (.scalar value)) := by
  rw [get, h.segments_of_mem_leaves hd hleaf]
  obtain ⟨child, hchild, rest, rfl, hrest⟩ := (mem_leaves_iff hd).mp hleaf
  rw [follow_of_mem_children h.keys (mem_of_mem_limbs hchild) fun hk => h.bounded hk child hchild]
  exact follow_of_mem_leaves (h.limbs child hchild) hrest

theorem map_copyOf : (d.pathLeaves.map fun leaf => d.copyOf leaf.1 (.scalar leaf.2)) = d.leafCopies :=
  map_copyOf_pathLeaves (fun _ hleaf => h.segments_of_mem_leaves hd hleaf) fun _ hleaf => h.get_of_mem_leaves hd hleaf

end Plain

/-- All leaves of a row can be looked up in the document, and what is found there fits into a fresh
object so that each path shows its leaf. -/
structure Recoverable (d : Document) (row : Row) : Prop where
  found : ∀ leaf ∈ row, ∃ found, d.get (.ofText leaf.1) = .ok found
  fits : ∀ slot, Copy.Fits (Copy.branch .object slot (row.map fun leaf => d.copyOf leaf.1 (.scalar leaf.2)))

theorem restrict_row_eq_ok_iff {row : Row} {t : Document} (hne : row ≠ []) :
    restrict (row.map (·.1)) d = .ok t ↔ (∀ leaf ∈ row, ∃ found, d.get (.ofText leaf.1) = .ok found) ∧
      fillAll (row.map fun leaf => d.copyOf leaf.1 (.scalar leaf.2)) (.object []) = some t := by
  have h : restrict ((row.map fun leaf => (leaf.1, Document.scalar leaf.2)).map (·.1)) d = .ok t ↔ _ :=
    restrict_eq_ok_iff (by simpa using hne)
  simpa only [List.map_map, Function.comp_def, List.forall_mem_map] using h

private theorem recoverable_iff_exists_restrict {row : Row} (hne : row ≠ []) :
    d.Recoverable row ↔ ∃ t, restrict (row.map (·.1)) d = .ok t ∧
      ∀ leaf ∈ row, t.get (.ofText leaf.1) = .ok (some (.scalar leaf.2)) := by
  have hsegments : ∀ copy ∈ row.map fun leaf => d.copyOf leaf.1 (.scalar leaf.2), copy.segments ≠ [] :=
    List.forall_mem_map.mpr fun leaf _ => segments_ne_nil leaf.1
  have hscalar : ∀ copy ∈ row.map fun leaf => d.copyOf leaf.1 (.scalar leaf.2), ∃ s, copy.wanted = .scalar s :=
    List.forall_mem_map.mpr fun leaf _ => ⟨leaf.2, rfl⟩
  have hiff := recovers_object_iff hsegments hscalar
  constructor
  · intro h
    obtain ⟨t, ht⟩ := hiff.mpr h.fits
    refine ⟨t, (restrict_row_eq_ok_iff hne).mpr ⟨h.found, ht.filled⟩, fun leaf hleaf => ?_⟩
    exact follow_eq_ok_of_trailingDot _ (ht.read _ (List.mem_map_of_mem hleaf))
  · rintro ⟨t, ht, hread⟩
    obtain ⟨hfound, hfilled⟩ := (restrict_row_eq_ok_iff hne).mp ht
    refine ⟨hfound, hiff.mp ⟨t, hfilled, fun copy hcopy => ?_, hscalar⟩⟩
    obtain ⟨leaf, hleaf, rfl⟩ := List.mem_map.mp hcopy
    exact follow_eq_ok_of_trailingDot false (hread leaf hleaf)

private theorem Plain.recoverable {row : Row} (h : d.Plain) (hrow : d.toRow [] = .ok row) : d.Recoverable row := by
  obtain ⟨hd, rfl⟩ := toRow_nil_eq_ok hrow
  have hcopies := h.map_copyOf hd
  refine ⟨fun leaf hleaf => ?_, fun slot => ?_⟩
  · obtain ⟨⟨trail, value⟩, hmem, rfl⟩ := List.mem_map.mp hleaf
    exact ⟨_, h.get_of_mem_leaves hd hmem⟩
  · rw [hcopies]
    refine fits_branch_leafCopies hd ?_ (fun child hchild => fits_leafCopies (h.limbs child hchild)) slot
    have hkeys : (d.limbs.map (·.1)).Nodup := h.keys.sublist (List.filter_sublist.map _)
    exact hkeys.map fun x y hxy => Slot.key.inj (Option.some.inj hxy)

/-- A document restricted to the paths of its leaves shows the same leaves exactly if their copies
fit into a fresh object. They do in every plain document. -/
theorem restrict_leafPaths (d : Document) (row : Row) (h : d.toRow [] = .ok row) (hne : row ≠ []) :
    ((∃ t, restrict (row.map (·.1)) d = .ok t ∧
        ∀ leaf ∈ row, t.get (.ofText leaf.1) = .ok (some (.scalar leaf.2))) ↔ d.Recoverable row) ∧
      (d.Plain → d.Recoverable row) :=
  ⟨(recoverable_iff_exists_restrict hne).symm, fun hplain => hplain.recoverable h⟩

/-- Indices and other keys together at the root and behind another key, and an array with gaps. -/
theorem restrict_leafPaths_mixed :
    let pair := object [("x", .scalar (.bool true)), ("5", .null)]
    let items := array [.array [], .scalar (.string "v")]
    let d := object [("0", pair), ("k", items), ("", .scalar (.bool false))]
    let row : Row := [("0.x", .bool true), ("0.5", .null), ("k.1", .string "v"), ("", .bool false)]
    (d.toRow [] = .ok row ∧ row ≠ [] ∧ d.Plain) ∧
      ∃ t, restrict (row.map (·.1)) d = .ok t ∧
        ∀ leaf ∈ row, t.get (.ofText leaf.1) = .ok (some (.scalar leaf.2)) := by
  intro pair items d row
  have hpair : pair.Spelled := by
    have hlimbs : pair.limbs = [("x", .scalar (.bool true)), ("5", .null)] := by rfl
    refine .container (.inr rfl) (by decide) ?_ ?_ ?_ ?_ <;> rw [hlimbs]
    · rintro first ⟨⟩
      exact ⟨by decide, by decide⟩
    · decide
    · decide
    · simp [Spelled.scalar, Document.null]
  have hitems : items.Spelled := by
    have hlimbs : items.limbs = [("1", .scalar (.string "v"))] := by rfl
    refine .container (.inl rfl) (by decide) ?_ ?_ ?_ ?_ <;> rw [hlimbs]
    · rintro first ⟨⟩
      exact ⟨by decide, by decide⟩
    · decide
    · decide
    · simp [Spelled.scalar]
  have hplain : d.Plain := by
    have hlimbs : d.limbs = [("0", pair), ("k", items), ("", .scalar (.bool false))] := by rfl
    refine ⟨by decide, fun hd => (by cases hd), ?_, ?_⟩ <;> rw [hlimbs]
    · decide
    · simp [hpair, hitems, Spelled.scalar]
  have hrow : d.toRow [] = .ok row := by rfl
  have hne : row ≠ [] := by simp [row]
  obtain ⟨hiff, hof⟩ := restrict_leafPaths d row hrow hne
  exact ⟨⟨hrow, hne, hplain⟩, hiff.mpr (hof hplain)⟩

/-- An index in front of another key opens an array, which has no slot for that key. -/
theorem restrict_leafPaths_index_first :
    let d := object [("n", object [("5", .scalar (.bool true)), ("x", .scalar (.bool false))])]
    let row : Row := [("n.5", .bool true), ("n.x", .bool false)]
    d.toRow [] = .ok row ∧ row ≠ [] ∧
      restrict (row.map (·.1)) d = .error (.notAnIndex "x" ⟨["x"], false⟩) ∧
      ¬ ∃ t, restrict (row.map (·.1)) d = .ok t ∧
        ∀ leaf ∈ row, t.get (.ofText leaf.1) = .ok (some (.scalar leaf.2)) := by
  intro d row
  have hfault : restrict (row.map (·.1)) d = .error (.notAnIndex "x" ⟨["x"], false⟩) := by rfl
  refine ⟨by rfl, by simp [row], hfault, ?_⟩
  rintro ⟨t, ht, -⟩
  cases hfault.symm.trans ht

end Document
end DocExport
