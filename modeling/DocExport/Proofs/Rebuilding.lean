import DocExport.Proofs.LeafPaths
import DocExport.Proofs.Recovery

/-! Documents rebuilt from their leaves. Leaves that are written one after the other, in document
order, grow each container child by child, so a document without empty containers comes back as it
was: the same kinds, the same lengths, the members in the same order. -/
namespace DocExport.Document
open DocExport.Path
variable {d : Document} {copies : List Copy} {slot : Slot} {segment : String}

/-- The item behind the last one needs no padding. -/
theorem put_item_length (items : List Document) (item : Document) :
    (array items).put (.item items.length) item = .array (items ++ [item]) := by
  simp [put, List.rightpad]

/-- Copies that enter a container by one segment only change what is in its slot. -/
theorem fillAll_map_under (hd : d.kind ≠ .null) (hslot : d.kind.slot? segment = some slot) (hne : copies ≠ []) :
    fillAll (copies.map (Copy.under segment)) d = (fillAll copies (d.content slot)).map (d.put slot) := by
  induction copies generalizing d with
  | nil => exact absurd rfl hne
  | cons copy copies ih =>
    rw [List.map_cons, fillAll_cons, fillAll_cons, Copy.under, fill_cons hd, hslot, Option.bind_some]
    cases hfill : fill copy.written copy.segments (d.content slot) with
    | none => rfl
    | some child =>
      rw [Option.map_some, Option.bind_some, Option.bind_some]
      cases copies with
      | nil => rfl
      | cons next copies =>
        have hput := kind_put d slot child
        rw [ih (hput ▸ hd) (hput ▸ hslot) (List.cons_ne_nil next copies), content_put_self hslot]
        congr 1
        funext later
        exact put_put hslot child later

/-- The leaves of the document, written to an empty slot, make the document. -/
structure Rebuilt (d : Document) : Prop where
  occupied : d.leaves ≠ []
  rebuilt : fillAll d.leafCopies .null = some d

/-- A child that is rebuilt in an empty slot of a container. -/
theorem Rebuilt.put {child : Document} (h : child.Rebuilt) (hd : d.kind ≠ .null)
    (hslot : d.kind.slot? segment = some slot) (hempty : d.content slot = .null) :
    fillAll (child.leafCopies.map (Copy.under segment)) d = some (d.put slot child) := by
  have hne : child.leafCopies ≠ [] := by simpa [leafCopies] using h.occupied
  rw [fillAll_map_under hd hslot hne, hempty, h.rebuilt, Option.map_some]

/-- Members are added behind those that are there. -/
theorem fillAll_members {before rest : List Member} (hkeys : ((before ++ rest).map (·.1)).Nodup)
    (hrest : ∀ member ∈ rest, member.2.Rebuilt) :
    fillAll (rest.flatMap fun member => member.2.leafCopies.map (Copy.under member.1)) (.object before) =
      some (.object (before ++ rest)) := by
  induction rest generalizing before with
  | nil => rw [List.append_nil]; rfl
  | cons member rest ih =>
    obtain ⟨hmember, hlater⟩ := List.forall_mem_cons.mp hrest
    have hnew : member.1 ∉ before.map (·.1) := by
      rw [List.map_append, List.nodup_append] at hkeys
      exact fun hold => hkeys.2.2 _ hold _ List.mem_cons_self rfl
    have hempty : (object before).content (.key member.1) = .null := by
      have hnone : before.lookup member.1 = none := by
        rw [List.lookup_eq_none_iff]
        intro pair hpair
        simpa using fun heq : member.1 = pair.1 => hnew (heq ▸ List.mem_map_of_mem hpair)
      rw [content, content?, hnone, Option.getD_none]
    have hstep : fillAll (member.2.leafCopies.map (Copy.under member.1)) (.object before) =
        some (.object (before ++ [member])) := by
      rw [hmember.put (by simp [kind]) rfl hempty, put, setMember_of_not_mem hnew]
    rw [List.flatMap_cons, fillAll_append, hstep, Option.bind_some, ih (by simpa using hkeys) hlater]
    simp

/-- Items are added behind those that are there, as long as they have positions that can be written. -/
theorem fillAll_items {before rest : List Document} (hlength : before.length + rest.length ≤ indexLimit + 1)
    (hrest : ∀ item ∈ rest, item.Rebuilt) :
    fillAll (((rest.zipIdx before.length).map fun (item, position) => (toString position, item)).flatMap
        fun child => child.2.leafCopies.map (Copy.under child.1)) (.array before) = some (.array (before ++ rest)) := by
  induction rest generalizing before with
  | nil => rw [List.append_nil]; rfl
  | cons item rest ih =>
    obtain ⟨hitem, hlater⟩ := List.forall_mem_cons.mp hrest
    have hslot : (array before).kind.slot? (toString before.length) = some (.item before.length) := by
      have hle : before.length ≤ indexLimit := by
        rw [List.length_cons] at hlength
        omega
      simp only [kind, Kind.slot?, isIndex_toString, indexValue_toString, hle, and_self, if_true]
    have hempty : (array before).content (.item before.length) = .null := by
      rw [content, content?, List.getElem?_eq_none (Nat.le_refl _), Option.getD_none]
    have hstep : fillAll (item.leafCopies.map (Copy.under (toString before.length))) (.array before) =
        some (.array (before ++ [item])) := by
      rw [hitem.put (by simp [kind]) hslot hempty, put_item_length]
    have hshort : (before ++ [item]).length + rest.length ≤ indexLimit + 1 := by
      simp only [List.length_append, List.length_cons, List.length_nil] at hlength ⊢
      omega
    have hnext := ih hshort hlater
    rw [List.length_append, List.length_singleton] at hnext
    rw [List.zipIdx_cons, List.map_cons, List.flatMap_cons, fillAll_append, hstep, Option.bind_some, hnext]
    simp

theorem isBare_of_children_eq_nil (hd : d.kind = .array ∨ d.kind = .object) (h : d.children = []) :
    d.isBare = true := by
  cases d with
  | scalar value => exact absurd hd (not_container_scalar value)
  | array items =>
    have hitems := map_snd_children_array items
    rw [h] at hitems
    cases hitems
    rfl
  | object members =>
    cases (show members = [] from h)
    rfl

/-- A node that comes back wherever it stands: it is not a container without children, and what it
has for keys or positions tells an object from an array. -/
structure Regular (node : Document) : Prop where
  occupied : node.isBare = false
  distinct : node.keys.Nodup
  worded : ∀ key ∈ node.keys, isIndex key = false
  short : node.kind = .array → node.children.length ≤ indexLimit + 1

theorem limbs_eq_children (h : ∀ child ∈ d.children, child.2.Rebuilt) : d.limbs = d.children := by
  refine List.filter_eq_self.mpr fun child hchild => ?_
  simpa using (h child hchild).occupied

theorem leafCopies_eq_flatMap_children (hd : d.kind = .array ∨ d.kind = .object)
    (h : ∀ child ∈ d.children, child.2.Rebuilt) :
    d.leafCopies = d.children.flatMap fun child => child.2.leafCopies.map (Copy.under child.1) := by
  rw [leafCopies_eq_flatMap_limbs hd, limbs_eq_children h]

/-- The first leaf makes the container, and the others add to it. -/
theorem rebuilt_of_children (hd : d.kind = .array ∨ d.kind = .object) (hregular : d.Regular)
    (h : ∀ child ∈ d.children, child.2.Rebuilt) : d.Rebuilt := by
  obtain ⟨first, more, hchildren⟩ : ∃ first more, d.children = first :: more := by
    refine List.exists_cons_of_ne_nil fun hnil => ?_
    simpa [isBare_of_children_eq_nil hd hnil] using hregular.occupied
  have hfirst : first ∈ d.children := hchildren ▸ List.mem_cons_self
  have hlimbs := (limbs_eq_children h).trans hchildren
  obtain ⟨leaf, hhead⟩ := exists_head_leafCopies hd hlimbs
  constructor
  · intro hnil
    rw [leafCopies, hnil] at hhead
    cases hhead
  · rw [fillAll_null hhead rfl, leafCopies_eq_flatMap_children hd h]
    cases d with
    | scalar value => exact absurd hd (not_container_scalar value)
    | array items =>
      obtain ⟨position, -, hposition⟩ := mem_children_array_iff.mp hfirst
      have hshort : items.length ≤ indexLimit + 1 := by
        have hchild := hregular.short rfl
        rwa [children, List.length_map, List.length_zipIdx] at hchild
      have hitems : ∀ item ∈ items, item.Rebuilt := by
        rw [← map_snd_children_array items]
        exact List.forall_mem_map.mpr h
      have hopen : vivify (first.1 :: leaf.1) .null = .array [] := by
        simp only [vivify, ← hposition, isIndex_toString, if_true]
      rw [hopen]
      exact fillAll_items (by simpa using hshort) hitems
    | object members =>
      have hworded : isIndex first.1 = false := hregular.worded first.1 (List.mem_map_of_mem hfirst)
      have hopen : vivify (first.1 :: leaf.1) .null = .object [] := by
        simp only [vivify, hworded, Bool.false_eq_true, if_false]
      rw [hopen]
      have hkeys : (([] ++ members : List Member).map (·.1)).Nodup := hregular.distinct
      exact fillAll_members hkeys h

theorem rebuilt_of_regular (h : d.Everywhere Regular) : d.Rebuilt := by
  induction d using induction_children with
  | node d ih =>
    obtain ⟨hregular, hchildren⟩ := everywhere_iff.mp h
    rcases d.scalar_or_container with ⟨value, rfl⟩ | hd
    · refine ⟨by rw [leaves]; exact List.cons_ne_nil _ _, ?_⟩
      rw [leafCopies_scalar]
      rfl
    · exact rebuilt_of_children hd hregular fun child hchild => ih child hchild (hchildren child hchild)

/-- Restricting a document to the paths of its own leaves gives back the document, with the same
order of members, if paths can spell its keys and, below the root, its keys do not look like indices
and its containers are not empty. The root is an object in any case, so its own keys may have the
form of indices and it may be empty. -/
theorem restrict_leafPaths_eq_self (d : Document) (hobject : d.kind = .object) (h : d.Proper)
    (hnamed : d.Everywhere fun node => ∀ key ∈ node.keys, key ≠ "" ∧ '.' ∉ key.toList)
    (hworded : ∀ child ∈ d.children, child.2.Everywhere fun node => ∀ key ∈ node.keys, isIndex key = false)
    (hoccupied : ∀ child ∈ d.children, child.2.Everywhere fun node => node.isBare = false)
    (hshort : d.Everywhere fun node => node.kind = .array → node.children.length ≤ 65536) :
    ∃ row, d.toRow [] = .ok row ∧ restrict (row.map (·.1)) d = .ok d := by
  have hd : d.kind = .array ∨ d.kind = .object := .inr hobject
  have hrebuilt : ∀ child ∈ d.children, child.2.Rebuilt := fun child hchild =>
    rebuilt_of_regular fun node hnode => {
      occupied := hoccupied child hchild node hnode
      distinct := (h.of_mem_children hchild).distinct node hnode
      worded := hworded child hchild node hnode
      short := (everywhere_iff.mp hshort).2 child hchild node hnode }
  have hrow := toRow_eq_ok_of_named hd h hnamed []
  obtain ⟨-, hall⟩ := toRow_nil_eq_ok hrow
  refine ⟨d.pathLeaves, hall ▸ hrow, ?_⟩
  cases hleaves : d.pathLeaves with
  | nil =>
    rfl
  | cons leaf row =>
    rw [← hleaves, restrict_row_eq_ok_iff (by simp [hleaves])]
    refine ⟨fun leaf hleaf => ⟨_, get_of_mem_pathLeaves hd h hnamed hleaf⟩, ?_⟩
    have hcopies : (d.pathLeaves.map fun leaf => d.copyOf leaf.1 (.scalar leaf.2)) = d.leafCopies :=
      map_copyOf_pathLeaves (fun _ hleaf => segments_of_mem_leaves hnamed hleaf (ne_nil_of_mem_leaves hd hleaf))
        fun _ hleaf => get_of_mem_leaves hd h hnamed hleaf
    rw [hcopies, leafCopies_eq_flatMap_children hd hrebuilt]
    cases d with
    | scalar value => cases value <;> simp [kind] at hobject
    | array items => cases hobject
    | object members =>
      have hkeys : (([] ++ members : List Member).map (·.1)).Nodup := (everywhere_iff.mp h.distinct).1
      exact fillAll_members hkeys hrebuilt

/-- Members in no sorted order, arrays in an array, and an index for a key at the root. -/
theorem restrict_leafPaths_eq_self_nested :
    let inner := array [array [.scalar (.bool true), object [("z", .null)]], .scalar (.string "s")]
    let d := object [("7", object [("b", inner), ("a", .scalar (.number (.integer 1)))]), ("k", .scalar (.string ""))]
    let row : Row := [("7.b.0.0", .bool true), ("7.b.0.1.z", .null), ("7.b.1", .string "s"),
      ("7.a", .number (.integer 1)), ("k", .string "")]
    (d.kind = .object ∧ d.Proper ∧ (d.Everywhere fun node => ∀ key ∈ node.keys, key ≠ "" ∧ '.' ∉ key.toList) ∧
        (∀ child ∈ d.children, child.2.Everywhere fun node => ∀ key ∈ node.keys, isIndex key = false) ∧
        (∀ child ∈ d.children, child.2.Everywhere fun node => node.isBare = false) ∧
        d.Everywhere fun node => node.kind = .array → node.children.length ≤ 65536) ∧
      d.toRow [] = .ok row ∧ restrict (row.map (·.1)) d = .ok d := by
  intro inner d row
  have h : d.Proper := ⟨by decide, by decide⟩
  have hnamed : d.Everywhere fun node => ∀ key ∈ node.keys, key ≠ "" ∧ '.' ∉ key.toList := by decide
  have hworded : ∀ child ∈ d.children, child.2.Everywhere fun node => ∀ key ∈ node.keys, isIndex key = false := by
    decide
  have hoccupied : ∀ child ∈ d.children, child.2.Everywhere fun node => node.isBare = false := by decide
  have hshort : d.Everywhere fun node => node.kind = .array → node.children.length ≤ 65536 := by decide
  have hrow : d.toRow [] = .ok row := by rfl
  obtain ⟨found, hfound, hself⟩ := restrict_leafPaths_eq_self d rfl h hnamed hworded hoccupied hshort
  cases hrow.symm.trans hfound
  exact ⟨⟨rfl, h, hnamed, hworded, hoccupied, hshort⟩, hrow, hself⟩

end DocExport.Document
