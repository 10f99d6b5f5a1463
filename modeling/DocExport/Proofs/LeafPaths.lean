import DocExport.Proofs.Nodes
import DocExport.Proofs.Table

/-! Leaf paths as addresses. Without dots in the keys no two leaves spell the same path. If no key is empty either,
a leaf is found in its document at the path that it has in a row, and a scalar that is found at a path is in the row
under it. So the cells of a table and the values of a restricted document agree. -/
namespace DocExport

/-- A path text as leaf paths are written: no dot at its end, and no zeros in front of an index. -/
structure Path.Canonical (text : String) : Prop where
  no_final_dot : text.toList.getLast? ≠ some '.'
  no_padding : ∀ segment ∈ (Path.ofText text).segments, Path.isPadded segment = false

namespace Document
open DocExport.Path
variable {d : Document} {trail : Trail} {value : Scalar} {allowed : List String} {trailingDot : Bool}

/-- Different leaves have different trails. -/
theorem nodup_trails (h : d.Everywhere fun node => node.keys.Nodup) : (d.leaves.map (·.1)).Nodup := by
  induction d using induction_children with
  | node d ih =>
    rcases d.scalar_or_container with ⟨value, rfl⟩ | hd
    · rw [leaves]
      exact List.nodup_singleton _
    · obtain ⟨hkeys, hchildren⟩ := everywhere_iff.mp h
      have hlimbs : (d.limbs.map (·.1)).Nodup := (nodup_segments hkeys).sublist (List.filter_sublist.map _)
      rw [leaves_eq_flatMap_limbs hd, List.map_flatMap, List.nodup_flatMap]
      simp only [List.map_map]
      constructor
      · intro child hchild
        have hmem := List.mem_of_mem_filter hchild
        have hcons := (ih child hmem (hchildren child hmem)).map (List.cons_injective (a := child.1))
        rwa [List.map_map] at hcons
      · -- trails into different children differ in their first segments
        refine (List.pairwise_map.mp hlimbs).imp fun hne trail hleft hright => ?_
        obtain ⟨left, -, rfl⟩ := List.mem_map.mp hleft
        obtain ⟨right, -, heq⟩ := List.mem_map.mp hright
        exact hne (List.cons.inj heq).1.symm

/-- What all keys and all indices have, the segments of trails have. -/
theorem forall_mem_trail {Q : String → Prop} (hkeys : d.Everywhere fun node => ∀ key ∈ node.keys, Q key)
    (hindices : ∀ segment, isIndex segment = true → Q segment) (hleaf : (trail, value) ∈ d.leaves) :
    ∀ segment ∈ trail, Q segment := by
  induction trail generalizing d with
  | nil => exact fun _ hmem => absurd hmem List.not_mem_nil
  | cons segment rest ih =>
    obtain ⟨child, hchild, hrest⟩ := cons_mem_leaves_iff.mp hleaf
    obtain ⟨hhere, hchildren⟩ := everywhere_iff.mp hkeys
    refine List.forall_mem_cons.mpr ⟨?_, ih (hchildren _ hchild) hrest⟩
    rcases mem_keys_or_isIndex hchild with hkey | hindex
    · exact hhere segment hkey
    · exact hindices segment hindex

theorem dotless_of_mem_leaves (hdot : d.Everywhere fun node => ∀ key ∈ node.keys, '.' ∉ key.toList)
    (hleaf : (trail, value) ∈ d.leaves) : ∀ segment ∈ trail, '.' ∉ segment.toList :=
  forall_mem_trail hdot (fun _ => dot_not_mem_of_isIndex) hleaf

theorem ne_empty_of_mem_leaves (hnamed : d.Everywhere fun node => ∀ key ∈ node.keys, key ≠ "")
    (hleaf : (trail, value) ∈ d.leaves) : ∀ segment ∈ trail, segment ≠ "" := by
  refine forall_mem_trail hnamed (fun segment hindex => ?_) hleaf
  rintro rfl
  cases hindex

theorem ne_nil_of_mem_leaves (hd : d.kind = .array ∨ d.kind = .object) (hleaf : (trail, value) ∈ d.leaves) :
    trail ≠ [] := by
  rintro rfl
  cases nil_mem_leaves_iff.mp hleaf
  exact not_container_scalar value hd

/-- Without dots in the keys different leaves have different paths. -/
theorem nodup_pathLeaves (hd : d.kind = .array ∨ d.kind = .object)
    (hkeys : d.Everywhere fun node => node.keys.Nodup)
    (hdot : d.Everywhere fun node => ∀ key ∈ node.keys, '.' ∉ key.toList) : (d.pathLeaves.map (·.1)).Nodup := by
  have hpaths : d.pathLeaves.map (·.1) = (d.leaves.map (·.1)).map join := by
    rw [pathLeaves, List.map_map, List.map_map]
    rfl
  rw [hpaths]
  refine (nodup_trails hkeys).map_on fun a ha b hb heq => ?_
  obtain ⟨⟨a, left⟩, hleft, rfl⟩ := List.mem_map.mp ha
  obtain ⟨⟨b, right⟩, hright, rfl⟩ := List.mem_map.mp hb
  exact join_inj (ne_nil_of_mem_leaves hd hleft) (ne_nil_of_mem_leaves hd hright)
    (dotless_of_mem_leaves hdot hleft) (dotless_of_mem_leaves hdot hright) heq

/-- A container without dots in its keys becomes a row, whatever paths are wanted: no two of its leaves spell the
same path, not even with empty keys, or with keys that look like positions. -/
theorem toRow_of_dotless (d : Document) (hd : d.kind = .array ∨ d.kind = .object)
    (hkeys : d.Everywhere fun node => node.keys.Nodup)
    (hdot : d.Everywhere fun node => ∀ key ∈ node.keys, '.' ∉ key.toList) :
    (d.leaves.Pairwise fun leaf other => join leaf.1 ≠ join other.1) ∧
      ∀ allowed, d.toRow allowed = .ok (d.pathLeaves.filter fun leaf => allowed = [] ∨ leaf.1 ∈ allowed) := by
  have hpaths := nodup_pathLeaves hd hkeys hdot
  refine ⟨?_, fun allowed => ?_⟩
  · rw [pathLeaves, List.map_map] at hpaths
    exact List.pairwise_map.mp hpaths
  · simp only [toRow_eq_ok_of_nodup hd hpaths, wants_eq_decide]

/-- Empty keys, a key that is the position of an item elsewhere, and one that is a position with a zero in front. -/
theorem toRow_of_dotless_empty_keys :
    let d := object [("", object [("", .null), ("0", .scalar (.bool true))]),
      ("0", array [object [("", .scalar (.string "x"))], array [.null]]), ("00", .scalar (.string "y"))]
    (d.kind = .object ∧ (d.Everywhere fun node => node.keys.Nodup) ∧
        d.Everywhere fun node => ∀ key ∈ node.keys, '.' ∉ key.toList) ∧
      d.toRow [] =
        .ok [(".", .null), (".0", .bool true), ("0.0.", .string "x"), ("0.1.0", .null), ("00", .string "y")] ∧
      d.toRow ["0.1.0", ".", "0"] = .ok [(".", .null), ("0.1.0", .null)] := by
  intro d
  have hd : d.kind = .object := rfl
  have hkeys : d.Everywhere fun node => node.keys.Nodup := by decide
  have hdot : d.Everywhere fun node => ∀ key ∈ node.keys, '.' ∉ key.toList := by decide
  obtain ⟨-, hrow⟩ := toRow_of_dotless d (.inr hd) hkeys hdot
  exact ⟨⟨hd, hkeys, hdot⟩, hrow [], hrow ["0.1.0", ".", "0"]⟩

/-- A leaf is what its trail leads to. -/
theorem follow_trail (h : d.Proper) (hleaf : (trail, value) ∈ d.leaves) :
    follow trailingDot trail d = .ok (some (.scalar value)) := by
  induction trail generalizing d with
  | nil =>
    cases nil_mem_leaves_iff.mp hleaf
    rfl
  | cons segment rest ih =>
    obtain ⟨child, hchild, hrest⟩ := cons_mem_leaves_iff.mp hleaf
    have hsegments := nodup_segments (everywhere_iff.mp h.distinct).1
    rw [follow_of_mem_children hsegments hchild fun hd =>
      Nat.lt_of_lt_of_le (indexValue_lt_length hd hchild) ((everywhere_iff.mp h.counted).1 hd)]
    exact ih (h.of_mem_children hchild) hrest

/-- A scalar that segments lead to is a leaf with these segments for its trail, unless one of them
is an index with zeros in front. -/
theorem mem_leaves_of_follow (hpad : ∀ segment ∈ trail, isPadded segment = false)
    (h : follow trailingDot trail d = .ok (some (.scalar value))) : (trail, value) ∈ d.leaves := by
  induction trail generalizing d with
  | nil =>
    cases h
    exact nil_mem_leaves_iff.mpr rfl
  | cons segment rest ih =>
    obtain ⟨hsegment, hrest⟩ := List.forall_mem_cons.mp hpad
    obtain ⟨child, hchild, hfollow⟩ := exists_child_of_follow hsegment h
    exact cons_mem_leaves_iff.mpr ⟨child, hchild, ih hrest hfollow⟩

section Named
variable (hd : d.kind = .array ∨ d.kind = .object) (h : d.Proper)
  (hnamed : d.Everywhere fun node => ∀ key ∈ node.keys, key ≠ "" ∧ '.' ∉ key.toList)
include hnamed

theorem segments_of_mem_leaves (hleaf : (trail, value) ∈ d.leaves) (hne : trail ≠ []) :
    (ofText (join trail)).segments = trail := by
  refine segments_ofText_join hne ?_ (.inr fun hlast => ?_)
  · exact dotless_of_mem_leaves (fun node hnode key hkey => (hnamed node hnode key hkey).2) hleaf
  · exact ne_empty_of_mem_leaves (fun node hnode key hkey => (hnamed node hnode key hkey).1) hleaf ""
      (List.mem_of_getLast? hlast) rfl

include hd h

theorem toRow_eq_ok_of_named (allowed : List String) :
    d.toRow allowed = .ok (d.pathLeaves.filter fun leaf => wants allowed leaf.1) :=
  toRow_eq_ok_of_nodup hd
    (nodup_pathLeaves hd h.distinct fun node hnode key hkey => (hnamed node hnode key hkey).2)

/-- A leaf is found at the text of its trail. -/
theorem get_of_mem_leaves (hleaf : (trail, value) ∈ d.leaves) :
    d.get (.ofText (join trail)) = .ok (some (.scalar value)) := by
  rw [get, segments_of_mem_leaves hnamed hleaf (ne_nil_of_mem_leaves hd hleaf)]
  exact follow_trail h hleaf

theorem get_of_mem_pathLeaves {leaf : String × Scalar} (hleaf : leaf ∈ d.pathLeaves) :
    d.get (.ofText leaf.1) = .ok (some (.scalar leaf.2)) := by
  obtain ⟨⟨trail, value⟩, hmem, rfl⟩ := List.mem_map.mp hleaf
  exact get_of_mem_leaves hd h hnamed hmem

end Named

/-- A scalar that is found at a path is a leaf with this path. -/
theorem mem_pathLeaves_of_get {path : String} (hpath : Canonical path)
    (h : d.get (.ofText path) = .ok (some (.scalar value))) : (path, value) ∈ d.pathLeaves := by
  have hleaf : (join (ofText path).segments, value) ∈ d.pathLeaves :=
    List.mem_map_of_mem (mem_leaves_of_follow hpath.no_padding h)
  rwa [join_segments_ofText hpath.no_final_dot] at hleaf

/-- The text of the scalar at a path, nothing if there is none. -/
def textAt (d : Document) (path : String) : String :=
  match d.get (.ofText path) with
  | .ok (some (.scalar value)) => value.text
  | _ => ""

/-- Leaf paths and addresses name the same leaves in a document whose keys are spelled without dots
and not empty: each leaf is found at its path, each scalar at a canonical path is a leaf, and the
cells of any table show what is found at its columns. -/
theorem get_leafPaths (d : Document) (hd : d.kind = .array ∨ d.kind = .object) (h : d.Proper)
    (hnamed : d.Everywhere fun node => ∀ key ∈ node.keys, key ≠ "" ∧ '.' ∉ key.toList) :
    ∃ row, d.toRow [] = .ok row ∧
      (∀ leaf ∈ row, d.get (.ofText leaf.1) = .ok (some (.scalar leaf.2))) ∧
      (∀ path value, Canonical path → d.get (.ofText path) = .ok (some (.scalar value)) → (path, value) ∈ row) ∧
      ∀ keys, ∃ cells, d.toRow keys = .ok cells ∧
        ∀ key ∈ keys, Canonical key → Table.cell cells key = d.textAt key := by
  have hrow := toRow_eq_ok_of_named hd h hnamed
  obtain ⟨-, hall⟩ := toRow_nil_eq_ok (hrow [])
  refine ⟨d.pathLeaves, hall ▸ hrow [], fun leaf => get_of_mem_pathLeaves hd h hnamed,
    fun path value => mem_pathLeaves_of_get, fun keys => ⟨_, hrow keys, fun key hkey hcanonical => ?_⟩⟩
  obtain ⟨hleaf, hnone⟩ := Table.hasCell_cell (hrow keys) (by simp [wants, hkey] : wants keys key = true)
  unfold textAt
  split
  · rename_i value hget
    exact hleaf (key, value) (mem_pathLeaves_of_get hcanonical hget) rfl
  · rename_i hother
    refine hnone fun leaf hmem heq => ?_
    exact hother leaf.2 (heq ▸ get_of_mem_pathLeaves hd h hnamed hmem)

/-- A key that looks like a padded index is an address like any other; a padded index of an array
finds a leaf too, but under another path. -/
theorem get_leafPaths_padded :
    let d := object [("a", object [("07", .null)]), ("k", array [.scalar (.bool true), object [("x", .scalar (.string "v"))]])]
    let row : Row := [("a.07", .null), ("k.0", .bool true), ("k.1.x", .string "v")]
    ((d.kind = .array ∨ d.kind = .object) ∧ d.Proper ∧
        d.Everywhere fun node => ∀ key ∈ node.keys, key ≠ "" ∧ '.' ∉ key.toList) ∧
      d.toRow [] = .ok row ∧ d.get (.ofText "a.07") = .ok (some .null) ∧
      d.get (.ofText "k.01.x") = .ok (some (.scalar (.string "v"))) ∧ ("k.1.x", .string "v") ∈ row ∧
      ∃ cells, d.toRow ["k.1.x", "k.2"] = .ok cells ∧ Table.cell cells "k.1.x" = "v" ∧ Table.cell cells "k.2" = "" := by
  intro d row
  have hd : d.kind = .array ∨ d.kind = .object := .inr rfl
  have h : d.Proper := ⟨by decide, by decide⟩
  have hnamed : d.Everywhere fun node => ∀ key ∈ node.keys, key ≠ "" ∧ '.' ∉ key.toList := by decide
  have hrow : d.toRow [] = .ok row := by rfl
  obtain ⟨found, hfound, hread, hleaf, htable⟩ := get_leafPaths d hd h hnamed
  cases hrow.symm.trans hfound
  obtain ⟨cells, hcells, hcell⟩ := htable ["k.1.x", "k.2"]
  exact ⟨⟨hd, h, hnamed⟩, hrow, hread ("a.07", .null) (by decide), rfl,
    hleaf "k.1.x" (.string "v") ⟨by decide, by decide⟩ rfl, cells, hcells,
    hcell "k.1.x" (by decide) ⟨by decide, by decide⟩, hcell "k.2" (by decide) ⟨by decide, by decide⟩⟩

end Document
end DocExport
