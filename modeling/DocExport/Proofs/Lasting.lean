import DocExport.Document.Selection
import DocExport.Proofs.Nodes
import DocExport.Proofs.Walk

/-! What lasts at the nodes of a document. If empty containers have a property, and a container does not lose it when
a child is put into a slot, then reading, writing and restricting documents that have it at every node give
documents that have it at every node. -/
namespace DocExport.Document
variable {d e child found value source target : Document} {slot : Slot} {segment : String} {segments : List String}
  {trailingDot : Bool} {P : Document → Prop}

/-- A property of nodes that writes do not take away, whatever they put into a slot. -/
structure Lasting (P : Document → Prop) : Prop where
  null : P .null
  array : P (.array [])
  object : P (.object [])
  put : ∀ {d : Document} {segment : String} {slot : Slot} (child : Document),
    d.kind.slot? segment = some slot → P d → P (d.put slot child)

theorem Everywhere.of_content? (h : d.Everywhere P) (hchild : d.content? slot = some child) : child.Everywhere P := by
  cases d with
  | scalar s => cases hchild
  | array items =>
    cases slot with
    | key name => cases hchild
    | item position => exact (everywhere_array_iff.mp h).2 child (List.mem_of_getElem? hchild)
  | object members =>
    cases slot with
    | key name =>
      obtain ⟨left, right, rfl, -⟩ := List.lookup_eq_some_iff.mp hchild
      exact (everywhere_iff.mp h).2 (name, child) (List.mem_append_right left List.mem_cons_self)
    | item position => cases hchild

/-- What is found at a path is a part of the document. -/
theorem Everywhere.of_follow (h : d.Everywhere P) (hfound : follow trailingDot segments d = .ok (some found)) :
    found.Everywhere P := by
  induction segments generalizing d with
  | nil =>
    cases hfound
    exact h
  | cons segment rest ih =>
    obtain ⟨slot, child, -, hchild, hrest⟩ := exists_read?_of_follow hfound
    exact ih (h.of_content? hchild) hrest

namespace Lasting

theorem everywhere_null (hP : Lasting P) : Document.null.Everywhere P :=
  everywhere_iff.mpr ⟨hP.null, List.forall_mem_nil _⟩

theorem everywhere_content (hP : Lasting P) (h : d.Everywhere P) (slot : Slot) : (d.content slot).Everywhere P := by
  rw [content]
  cases hchild : d.content? slot with
  | none => exact hP.everywhere_null
  | some child => exact h.of_content? hchild

theorem everywhere_vivify (hP : Lasting P) (h : d.Everywhere P) (segments : List String) :
    (vivify segments d).Everywhere P := by
  unfold vivify
  split
  · split
    · exact everywhere_iff.mpr ⟨hP.array, List.forall_mem_nil _⟩
    · exact everywhere_iff.mpr ⟨hP.object, List.forall_mem_nil _⟩
  · exact h

/-- Below a container with a new child is what was there, the child, and nulls. -/
theorem everywhere_put (hP : Lasting P) (hslot : d.kind.slot? segment = some slot) (h : d.Everywhere P)
    (hchild : child.Everywhere P) : (d.put slot child).Everywhere P := by
  have hroot : P (d.put slot child) := hP.put child hslot (everywhere_iff.mp h).1
  cases d with
  | scalar s => cases s <;> cases hslot
  | array items =>
    obtain ⟨-, hitem⟩ := Option.ite_none_right_eq_some.mp hslot
    cases hitem
    refine everywhere_array_iff.mpr ⟨hroot, fun item hmem => ?_⟩
    rcases List.mem_or_eq_of_mem_set hmem with hpadded | rfl
    · rcases List.mem_append.mp hpadded with hold | hnull
      · exact (everywhere_array_iff.mp h).2 item hold
      · exact (List.eq_of_mem_replicate hnull) ▸ hP.everywhere_null
    · exact hchild
  | object members =>
    cases hslot
    refine everywhere_iff.mpr ⟨hroot, fun member hmem => ?_⟩
    rcases mem_setMember hmem with rfl | hold
    · exact hchild
    · exact (everywhere_iff.mp h).2 member hold

/-- One write, stopped or not. -/
theorem everywhere_place (hP : Lasting P) (h : d.Everywhere P) (hvalue : value.Everywhere P) (trailingDot : Bool)
    (segments : List String) : (place trailingDot value segments d).document.Everywhere P := by
  induction segments generalizing d with
  | nil => exact hvalue
  | cons segment rest ih =>
    cases hslot : d.kind.slot? segment with
    | none =>
      obtain ⟨fault, hfault⟩ := exists_fault_of_slot?_eq_none hslot trailingDot rest
      rwa [hfault]
    | some slot =>
      rw [place_cons_of_slot hslot]
      exact hP.everywhere_put hslot h (ih (hP.everywhere_vivify (hP.everywhere_content h slot) rest))

theorem everywhere_copyPath (hP : Lasting P) {path : Path} (hsource : source.Everywhere P) (htarget : target.Everywhere P)
    (h : source.copyPath target path = .ok e) : e.Everywhere P := by
  unfold copyPath at h
  split at h
  · cases h
  · rename_i found hfound
    have hvalue : (found.getD .null).Everywhere P := by
      cases found with
      | none => exact hP.everywhere_null
      | some node => exact hsource.of_follow hfound
    dsimp only at h
    split at h
    · cases h
    · cases h
      exact hP.everywhere_place htarget hvalue path.trailingDot path.segments

/-- One copy after the other, from an empty object on. -/
theorem everywhere_restrict (hP : Lasting P) {keys : List String} (hd : d.Everywhere P) (h : restrict keys d = .ok e) :
    e.Everywhere P := by
  -- each copy goes into what the one before it has left, so this is said of every target
  have hrun (paths : List Path) (target : Document) (htarget : target.Everywhere P)
      (hrest : paths.foldlM (d.copyPath ·) target = .ok e) : e.Everywhere P := by
    induction paths generalizing target with
    | nil =>
      cases hrest
      exact htarget
    | cons path paths ih =>
      rw [List.foldlM_cons] at hrest
      obtain ⟨next, hnext, hrest⟩ := bind_eq_ok_iff.mp hrest
      exact ih next (hP.everywhere_copyPath hd htarget hnext) hrest
  unfold restrict at h
  split at h
  · cases h
    exact hd
  · exact hrun _ _ (everywhere_iff.mpr ⟨hP.object, List.forall_mem_nil _⟩) h

end Lasting

end DocExport.Document
