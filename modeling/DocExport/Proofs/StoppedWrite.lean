import DocExport.Proofs.Fit
import DocExport.Proofs.Nodes
import DocExport.Proofs.Walk

/-! Writes that are stopped. What such a write leaves behind depends on the path alone: nothing is lost,
the nodes that are new are nulls and containers on the way along the path, and a second write to the
path is stopped at the same place. -/
namespace DocExport.Document
variable {d e child value found : Document} {slot : Slot} {slots : List Slot} {segment : String}
  {rest segments : List String} {trailingDot : Bool} {fault : AddressFault}

/-- What a write along `segments` has made of a node when it is stopped: nothing, a container of a null,
or the like in the slot that the path goes on in. -/
inductive Grown : List String → Document → Document → Prop where
  | same (segments : List String) (d : Document) : Grown segments d d
  | opened {segment : String} {rest : List String} {e : Document} :
    Grown (segment :: rest) (vivify (segment :: rest) .null) e → Grown (segment :: rest) .null e
  | inside {segment : String} {rest : List String} {d child : Document} {slot : Slot} :
    d.kind.slot? segment = some slot → Grown rest (d.content slot) child → Grown (segment :: rest) d (d.put slot child)

private theorem grown_of_vivify (h : Grown segments (vivify segments d) e) : Grown segments d e := by
  cases segments with
  | nil => exact h
  | cons segment rest =>
    by_cases hd : d.kind = .null
    · rw [eq_null_of_kind hd] at h ⊢
      exact .opened h
    · rwa [vivify_of_kind_ne_null hd] at h

theorem grown_of_place (h : place trailingDot value segments d = ⟨e, some fault⟩) : Grown segments d e := by
  induction segments generalizing d e with
  | nil => cases h
  | cons segment rest ih =>
    cases hslot : d.kind.slot? segment with
    | none =>
      obtain ⟨own, hown⟩ := exists_fault_of_slot?_eq_none hslot trailingDot rest
      cases (hown value).symm.trans h
      exact .same _ d
    | some slot =>
      rw [place_cons_of_slot hslot] at h
      cases hedit : place trailingDot value rest (vivify rest (d.content slot)) with
      | mk child stop =>
        rw [hedit] at h
        cases h
        exact .inside hslot (grown_of_vivify (ih hedit))

/-- The value has no part in a write that is stopped. -/
theorem place_eq_of_fault (h : (place trailingDot value segments d).fault = some fault) (other : Document) :
    place trailingDot other segments d = place trailingDot value segments d := by
  induction segments generalizing d with
  | nil => cases h
  | cons segment rest ih =>
    cases hslot : d.kind.slot? segment with
    | none =>
      obtain ⟨own, hown⟩ := exists_fault_of_slot?_eq_none hslot trailingDot rest
      rw [hown, hown]
    | some slot =>
      rw [place_cons_of_slot hslot] at h
      simp only [place_cons_of_slot hslot, ih h]

theorem kind_place_cons (trailingDot : Bool) (value : Document) (segment : String) (rest : List String)
    (d : Document) : (place trailingDot value (segment :: rest) d).document.kind = d.kind := by
  cases hslot : d.kind.slot? segment with
  | none =>
    obtain ⟨own, hown⟩ := exists_fault_of_slot?_eq_none hslot trailingDot rest
    rw [hown]
  | some slot =>
    rw [place_cons_of_slot hslot]
    exact kind_put ..

/-- A second write along the path goes to where the first one was stopped. -/
theorem place_of_place (h : place trailingDot value segments d = ⟨e, some fault⟩) (other : Document) :
    place trailingDot other segments e = ⟨e, some fault⟩ := by
  induction segments generalizing d e with
  | nil => cases h
  | cons segment rest ih =>
    cases hslot : d.kind.slot? segment with
    | none =>
      obtain ⟨own, hown⟩ := exists_fault_of_slot?_eq_none hslot trailingDot rest
      cases (hown value).symm.trans h
      exact hown other
    | some slot =>
      rw [place_cons_of_slot hslot] at h
      cases hedit : place trailingDot value rest (vivify rest (d.content slot)) with
      | mk child stop =>
        rw [hedit] at h
        cases h
        -- the container that the first write opened is not opened again
        have hopen : vivify rest child = child := by
          cases rest with
          | nil => rfl
          | cons next more =>
            have hkind := kind_place_cons trailingDot value next more (vivify (next :: more) (d.content slot))
            rw [hedit] at hkind
            exact vivify_of_kind_ne_null (hkind ▸ kind_vivify_ne_null next more _) _
        rw [place_cons_of_slot (slot?_put hslot), content_put_self hslot, hopen, ih hedit]
        simp only [put_put hslot]

/-- What is in a slot stays there, or has grown. -/
theorem Grown.content? (h : Grown segments d e) (hchild : d.content? slot = some child) :
    ∃ more grown, e.content? slot = some grown ∧ Grown more child grown := by
  cases h with
  | same => exact ⟨[], child, hchild, .same [] child⟩
  | opened => cases hchild
  | @inside segment rest d grown own hslot h =>
    by_cases hs : slot = own
    · subst hs
      rw [content, hchild, Option.getD_some] at h
      exact ⟨rest, grown, content?_put_self hslot, h⟩
    · exact ⟨[], child, content?_put_of_ne hs hchild grown, .same [] child⟩

theorem Grown.node? (h : Grown segments d e) (hnode : d.node? slots = some child) :
    ∃ more grown, e.node? slots = some grown ∧ Grown more child grown := by
  induction slots generalizing segments d e with
  | nil =>
    cases hnode
    exact ⟨segments, e, rfl, h⟩
  | cons slot slots ih =>
    obtain ⟨next, hnext, hnode⟩ := Option.bind_eq_some_iff.mp hnode
    obtain ⟨more, grown, hgrown, h⟩ := h.content? hnext
    rw [node?, hgrown]
    exact ih h hnode

/-- What a node does not lose: a scalar that is not null, the items of an array and the keys of an object,
which stay in front of new ones. -/
structure Keeps (old new : Document) : Prop where
  kind : old.kind = .null ∨ new.kind = old.kind
  scalar : ∀ s, s ≠ .null → old = .scalar s → new = .scalar s
  items : old.kind = .array → old.children.length ≤ new.children.length
  keys : old.keys <+: new.keys

theorem keys_setMember (key : String) (value : Document) (members : List Member) :
    members.map (·.1) <+: (setMember key value members).map (·.1) := by
  by_cases h : key ∈ members.map (·.1)
  · simp only [keys_setMember_of_mem h, List.prefix_refl]
  · rw [setMember_of_not_mem h, List.map_append]
    exact List.prefix_append ..

theorem keeps_put (hslot : d.kind.slot? segment = some slot) (child : Document) : d.Keeps (d.put slot child) where
  kind := .inr (kind_put ..)
  scalar := by
    rintro s - rfl
    rfl
  items := by
    intro hd
    cases d with
    | scalar s => cases s <;> cases hd
    | array items =>
      cases slot with
      | key name => exact Nat.le_refl _
      | item position =>
        simp only [put, children, List.length_map, List.length_zipIdx, List.length_set, List.length_rightpad]
        exact Nat.le_max_right ..
    | object members => cases hd
  keys := by
    cases d with
    | scalar s => exact List.prefix_refl _
    | array items => cases slot <;> exact List.prefix_refl _
    | object members =>
      cases slot with
      | key name => exact keys_setMember name child members
      | item position => exact List.prefix_refl _

theorem Grown.keeps (h : Grown segments d e) : d.Keeps e := by
  cases h with
  | same => exact ⟨.inr rfl, fun _ _ h => h, fun _ => Nat.le_refl _, List.prefix_refl _⟩
  | opened =>
    refine ⟨.inl rfl, fun s hs heq => ?_, nofun, List.nil_prefix⟩
    cases heq
    exact absurd rfl hs
  | inside hslot => exact keeps_put hslot _

/-- A scalar that is not null is found where it was. -/
theorem Grown.follow {path : List String} {s : Scalar} (h : Grown segments d e) (hs : s ≠ .null)
    (hfound : Document.follow trailingDot path d = .ok (some (.scalar s))) :
    Document.follow trailingDot path e = .ok (some (.scalar s)) := by
  induction path generalizing segments d e with
  | nil =>
    cases hfound
    rw [h.keeps.scalar s hs rfl]
    rfl
  | cons segment rest ih =>
    obtain ⟨slot, child, hslot, hchild, hrest⟩ := exists_read?_of_follow hfound
    obtain ⟨more, grown, hgrown, hchildren⟩ := h.content? hchild
    have hkind : e.kind = d.kind := h.keeps.kind.resolve_left fun hnull => by
      rw [eq_null_of_kind hnull] at hchild
      cases hchild
    rw [follow_cons_of_read? (hkind.symm ▸ hslot), hgrown]
    exact ih hchildren hrest

private theorem getD_node?_null (slots : List Slot) : (null.node? slots).getD .null = .null := by
  cases slots <;> rfl

private theorem getD_node?_cons (d : Document) (slot : Slot) (slots : List Slot) :
    (d.node? (slot :: slots)).getD .null = ((d.content slot).node? slots).getD .null := by
  rw [node?, content]
  cases d.content? slot with
  | none => exact (getD_node?_null slots).symm
  | some child => rfl

/-- Where there was nothing there is a null now, or a container that the path leads to. -/
theorem Grown.eq_null_or_position? (h : Grown segments d e) (hnode : e.node? slots = some child)
    (hnew : (d.node? slots).getD .null = .null) :
    child = .null ∨ (child.kind = .array ∨ child.kind = .object) ∧
      ∃ front, front <+: segments ∧ e.position? front = some slots := by
  induction h generalizing slots with
  | same segments d =>
    rw [hnode] at hnew
    exact .inl hnew
  | @opened segment rest e h ih =>
    cases slots with
    | nil =>
      cases hnode
      have hkind := h.keeps.kind.resolve_left (kind_vivify_ne_null segment rest .null)
      rw [kind_vivify_null] at hkind
      exact .inr ⟨hkind ▸ kind_opening segment, [], List.nil_prefix, rfl⟩
    | cons slot slots =>
      refine ih hnode ?_
      rw [getD_node?_cons, content_vivify_null]
      exact getD_node?_null slots
  | @inside segment rest d grown own hslot h ih =>
    cases slots with
    | nil =>
      rw [show d = .null from hnew] at hslot
      cases hslot
    | cons slot slots =>
      rw [getD_node?_cons] at hnew
      by_cases hs : slot = own
      · subst hs
        rw [Document.node?, content?_put_self hslot] at hnode
        refine (ih hnode hnew).imp_right ?_
        rintro ⟨hkind, front, hfront, hposition⟩
        refine ⟨hkind, segment :: front, (List.prefix_cons_inj segment).mpr hfront, ?_⟩
        rw [position?, kind_put, hslot, Option.bind_some, content_put_self hslot, hposition, Option.map_some]
      · have hcontent : (d.put own grown).content slot = d.content slot := content_put_of_ne hs
        rw [← hcontent, ← getD_node?_cons, hnode] at hnew
        exact .inl hnew

/-- What a write leaves when it is stopped. Every path that led to a scalar other than null still leads
to it, and no node loses anything. What is new are nulls and containers that the path leads to; the value
is nowhere, as any other value leaves the same. A second write to the path, of whatever value, is stopped by
the same fault and changes nothing. -/
theorem set_stopped (d : Document) (text : String) (value : Document) (fault : AddressFault)
    (h : (d.set (.ofText text) value).fault = some fault) :
    let left := (d.set (.ofText text) value).document
    (∀ other s, s ≠ .null → d.get (.ofText other) = .ok (some (.scalar s)) →
        left.get (.ofText other) = .ok (some (.scalar s))) ∧
      (∀ slots node, d.node? slots = some node → ∃ grown, left.node? slots = some grown ∧ node.Keeps grown) ∧
      (∀ slots node, left.node? slots = some node → (d.node? slots).getD .null = .null →
        node = .null ∨ (node.kind = .array ∨ node.kind = .object) ∧
          ∃ front, front <+: (Path.ofText text).segments ∧ left.position? front = some slots) ∧
      (∀ other, d.set (.ofText text) other = ⟨left, some fault⟩) ∧
      ∀ other, left.set (.ofText text) other = ⟨left, some fault⟩ := by
  intro left
  have hset : d.set (.ofText text) value = ⟨left, some fault⟩ := by rw [← h]
  have hgrown : Grown (Path.ofText text).segments d left := grown_of_place hset
  refine ⟨fun other s hs hfound => hgrown.follow hs hfound, fun slots node hnode => ?_,
    fun slots node hnode hnew => hgrown.eq_null_or_position? hnode hnew,
    fun other => (place_eq_of_fault h other).trans hset, place_of_place hset⟩
  obtain ⟨more, grown, hnode', hkept⟩ := hgrown.node? hnode
  exact ⟨grown, hnode', hkept.keeps⟩

/-- A null becomes an array, padding and an object, and then an index is over the limit. -/
theorem set_stopped_opened :
    let d := object [("a", .scalar (.bool true)), ("n", .null), ("c", .array [.scalar (.string "s")])]
    let left := object [("a", .scalar (.bool true)), ("n", .array [.null, object [("x", .array [])]]),
      ("c", .array [.scalar (.string "s")])]
    let fault := AddressFault.indexOverLimit 65536 ⟨["65536"], false⟩
    let edit := d.set (.ofText "n.1.x.65536") (.scalar (.string "v"))
    edit.fault = some fault ∧ edit.document = left ∧
      left.get (.ofText "c.0") = .ok (some (.scalar (.string "s"))) ∧
      left.set (.ofText "n.1.x.65536") (.scalar (.bool false)) = ⟨left, some fault⟩ := by
  intro d left fault edit
  have hfault : edit.fault = some fault := by rfl
  have hleft : edit.document = left := by rfl
  obtain ⟨hread, -, -, -, hagain⟩ := set_stopped d "n.1.x.65536" (.scalar (.string "v")) fault hfault
  refine ⟨hfault, hleft, ?_, ?_⟩
  · exact hleft ▸ hread "c.0" (.string "s") nofun rfl
  · exact hleft ▸ hagain (.scalar (.bool false))

end DocExport.Document
