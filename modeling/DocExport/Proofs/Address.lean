import DocExport.Document.Address

/-! Slots of containers, and writing in terms of them. A segment names one slot of the container it
is applied to; a write that is not stopped changes that slot and no other, at every level. -/
namespace DocExport

/-- Where a container holds a child. -/
inductive Slot where
  | key (name : String)
  | item (position : Nat)
  deriving DecidableEq, Repr

/-- The slot that a segment names in a container that is written to. -/
def Kind.slot? : Kind → String → Option Slot
  | .object, segment => some (.key segment)
  | .array, segment =>
    if Path.isIndex segment ∧ Path.indexValue segment ≤ Document.indexLimit then
      some (.item (Path.indexValue segment))
    else none
  | _, _ => none

/-- The slot that a segment names in a container that is read. -/
def Kind.read? : Kind → String → Option Slot
  | .object, segment => some (.key segment)
  | .array, segment =>
    if Path.isIndex segment ∧ Path.indexValue segment < Path.indexBound then
      some (.item (Path.indexValue segment))
    else none
  | _, _ => none

theorem Document.indexLimit_lt_indexBound : Document.indexLimit < Path.indexBound := by decide

theorem Kind.read?_of_slot? {kind : Kind} {slot : Slot} {segment : String} (h : kind.slot? segment = some slot) :
    kind.read? segment = some slot := by
  cases kind with
  | object => exact h
  | array =>
    simp only [slot?, Option.ite_none_right_eq_some] at h
    obtain ⟨⟨hindex, hlimit⟩, hslot⟩ := h
    have hbound := Nat.lt_of_le_of_lt hlimit Document.indexLimit_lt_indexBound
    rw [read?, if_pos ⟨hindex, hbound⟩, hslot]
  | null | boolean | number | string => cases h

/-- The limit is on the position, not on how it is spelled. -/
theorem Kind.slot?_of_read? {kind : Kind} {slot : Slot} {x y : String} (hx : kind.slot? x = some slot)
    (hy : kind.read? y = some slot) : kind.slot? y = some slot := by
  cases kind with
  | object => exact hy
  | array =>
    obtain ⟨⟨-, hlimit⟩, hslot⟩ := Option.ite_none_right_eq_some.mp hx
    obtain ⟨⟨hindex, -⟩, hsame⟩ := Option.ite_none_right_eq_some.mp hy
    cases hsame
    have hvalue : Path.indexValue x = Path.indexValue y := Slot.item.inj (Option.some.inj hslot)
    exact if_pos ⟨hindex, hvalue ▸ hlimit⟩
  | null | boolean | number | string => cases hx

namespace Document
variable {d e value child : Document} {slot other : Slot} {segment : String} {rest : List String}
  {trailingDot : Bool}

/-- What a container holds in a slot. -/
def content? : Document → Slot → Option Document
  | .object members, .key name => members.lookup name
  | .array items, .item position => items[position]?
  | _, _ => none

/-- An empty slot counts as null. -/
def content (d : Document) (slot : Slot) : Document := (d.content? slot).getD .null

/-- The container with a child put into a slot; an array is padded with nulls up to it. -/
def put : Document → Slot → Document → Document
  | .object members, .key name, child => .object (setMember name child members)
  | .array items, .item position, child =>
    .array ((items.rightpad (position + 1) .null).set position child)
  | d, _, _ => d

/-- The document after a write that nothing stopped. -/
def Edit.done? (edit : Edit) : Option Document :=
  match edit.fault with
  | none => some edit.document
  | some _ => none

theorem Edit.done?_of_fault_eq_none {edit : Edit} (h : edit.fault = none) :
    edit.done? = some edit.document := by
  simp [done?, h]

theorem Edit.done?_eq_some_iff {edit : Edit} : edit.done? = some e ↔ edit = ⟨e, none⟩ := by
  obtain ⟨document, fault⟩ := edit
  cases fault <;> simp [done?]

theorem lookup_setMember_self (key : String) (value : Document) (members : List Member) :
    (setMember key value members).lookup key = some value := by
  induction members with
  | nil => simp [setMember]
  | cons member members ih =>
    obtain ⟨k, v⟩ := member
    by_cases hk : k = key
    · simp [setMember, hk]
    · have hb : (key == k) = false := by simpa using Ne.symm hk
      simp [setMember, hk, List.lookup_cons, hb, ih]

theorem lookup_setMember_of_ne {key name : String} (value : Document) (members : List Member)
    (h : name ≠ key) : (setMember key value members).lookup name = members.lookup name := by
  induction members with
  | nil => simp [setMember, h]
  | cons member members ih =>
    obtain ⟨k, v⟩ := member
    by_cases hk : k = key
    · have hb : (name == k) = false := by simpa [hk] using h
      simp [setMember, hk, List.lookup_cons, hk ▸ hb]
    · simp [setMember, hk, List.lookup_cons, ih]

theorem mem_setMember {key : String} {member : Member} {members : List Member}
    (h : member ∈ setMember key value members) : member = (key, value) ∨ member ∈ members := by
  induction members with
  | nil => exact .inl (List.mem_singleton.mp h)
  | cons first members ih =>
    rw [setMember] at h
    split at h
    · rename_i hkey
      rcases List.mem_cons.mp h with rfl | hrest
      · exact .inl (by rw [hkey])
      · exact .inr (List.mem_cons_of_mem _ hrest)
    · rcases List.mem_cons.mp h with rfl | hrest
      · exact .inr List.mem_cons_self
      · exact (ih hrest).imp_right (List.mem_cons_of_mem _)

theorem setMember_setMember (key : String) (a b : Document) (members : List Member) :
    setMember key b (setMember key a members) = setMember key b members := by
  induction members with
  | nil => simp [setMember]
  | cons member members ih =>
    by_cases h : member.1 = key <;> simp [setMember, h, ih]

/-- A key that is there keeps its place. -/
theorem keys_setMember_of_mem {key : String} {members : List Member} (h : key ∈ members.map (·.1)) (value : Document) :
    (setMember key value members).map (·.1) = members.map (·.1) := by
  induction members with
  | nil => cases h
  | cons member members ih =>
    by_cases hk : member.1 = key
    · simp [setMember, hk]
    · have hrest : key ∈ members.map (·.1) := (List.mem_cons.mp h).resolve_left (Ne.symm hk)
      simp [setMember, hk, ih hrest]

/-- A new key goes behind the others. -/
theorem setMember_of_not_mem {key : String} {members : List Member} (h : key ∉ members.map (·.1)) (value : Document) :
    setMember key value members = members ++ [(key, value)] := by
  induction members with
  | nil => rfl
  | cons member members ih =>
    obtain ⟨hne, hrest⟩ := not_or.mp (mt List.mem_cons.mpr h)
    simp [setMember, Ne.symm hne, ih hrest]

/-- Padding adds nulls only, which is what an item past the end counts as. -/
theorem getElem?_pad_getD (items : List Document) (n i : Nat) :
    ((items.rightpad n .null)[i]?).getD .null = (items[i]?).getD .null := by
  by_cases h : i < items.length
  · simp [List.rightpad, List.getElem?_append_left h]
  · have hi : items.length ≤ i := Nat.le_of_not_lt h
    rw [List.rightpad, List.getElem?_append_right hi, List.getElem?_eq_none hi]
    by_cases hn : i - items.length < n - items.length
    · simp [hn]
    · simp [hn]

theorem kind_put (d : Document) (slot : Slot) (child : Document) : (d.put slot child).kind = d.kind := by
  cases d <;> cases slot <;> rfl

/-- A write into a container leaves what its segments name. -/
theorem slot?_put (h : d.kind.slot? segment = some slot) : (d.put other child).kind.slot? segment = some slot := by
  rw [kind_put, h]

theorem content?_put_self (h : d.kind.slot? segment = some slot) :
    (d.put slot child).content? slot = some child := by
  cases d with
  | scalar s => cases s <;> simp [kind, Kind.slot?] at h
  | array items =>
    simp only [kind, Kind.slot?, Option.ite_none_right_eq_some, Option.some.injEq] at h
    obtain ⟨-, rfl⟩ := h
    have hl : Path.indexValue segment <
        (items.rightpad (Path.indexValue segment + 1) Document.null).length := by
      rw [List.length_rightpad]
      omega
    simp only [put, content?, List.getElem?_set_self hl]
  | object members =>
    simp only [kind, Kind.slot?, Option.some.injEq] at h
    subst h
    simp only [put, content?, lookup_setMember_self]

theorem content_put_of_ne (h : other ≠ slot) : (d.put slot child).content other = d.content other := by
  cases d with
  | scalar s => rfl
  | array items =>
    cases slot <;> cases other <;> try rfl
    rename_i position other
    have hp : position ≠ other := fun hp => h (hp ▸ rfl)
    simp only [put, content, content?, List.getElem?_set_ne hp, getElem?_pad_getD]
  | object members =>
    cases slot <;> cases other <;> try rfl
    rename_i name other
    have hn : other ≠ name := fun hn => h (hn ▸ rfl)
    simp only [put, content, content?, lookup_setMember_of_ne _ _ hn]

theorem put_put (h : d.kind.slot? segment = some slot) (a b : Document) :
    (d.put slot a).put slot b = d.put slot b := by
  cases d with
  | scalar s => cases s <;> rfl
  | array items =>
    simp only [kind, Kind.slot?, Option.ite_none_right_eq_some, Option.some.injEq] at h
    obtain ⟨-, rfl⟩ := h
    have hlong : Path.indexValue segment + 1 ≤
        ((items.rightpad (Path.indexValue segment + 1) null).set (Path.indexValue segment) a).length := by
      rw [List.length_set, List.length_rightpad]
      exact Nat.le_max_left ..
    have hpad : ((items.rightpad (Path.indexValue segment + 1) null).set (Path.indexValue segment) a).rightpad
        (Path.indexValue segment + 1) null =
          (items.rightpad (Path.indexValue segment + 1) null).set (Path.indexValue segment) a := by
      rw [List.rightpad, Nat.sub_eq_zero_of_le hlong, List.replicate_zero, List.append_nil]
    simp only [put, hpad, List.set_set]
  | object members =>
    simp only [kind, Kind.slot?, Option.some.injEq] at h
    subst h
    simp only [put, setMember_setMember]

theorem arrayIndex_eq_ok_iff {path : Path} {index : Nat} :
    arrayIndex segment path = .ok index ↔
      Path.isIndex segment ∧ Path.indexValue segment = index ∧ index < Path.indexBound := by
  have hneg : Path.isNegativeIndex segment → ¬ Path.isIndex segment := by
    unfold Path.isNegativeIndex Path.isIndex
    split
    · rename_i heq
      simp [heq]
    · simp
  unfold arrayIndex
  split
  · simp_all
  · grind

theorem follow_cons_of_read? (h : d.kind.read? segment = some slot) :
    follow trailingDot (segment :: rest) d =
      match d.content? slot with
      | some child => follow trailingDot rest child
      | none => .ok none := by
  cases d with
  | scalar s => cases s <;> cases h
  | array items =>
    simp only [kind, Kind.read?, Option.ite_none_right_eq_some, Option.some.injEq] at h
    obtain ⟨⟨hindex, hbound⟩, rfl⟩ := h
    have hok : arrayIndex segment ⟨segment :: rest, trailingDot⟩ = .ok (Path.indexValue segment) :=
      arrayIndex_eq_ok_iff.mpr ⟨hindex, rfl, hbound⟩
    cases hitem : items[Path.indexValue segment]? with
    | none => simp only [follow, hok, content?, hitem]
    | some item => simp only [follow, hok, content?, hitem]
  | object members =>
    cases h
    rfl

/-- A segment that names a slot for writing names the same slot for reading. -/
theorem follow_cons (h : d.kind.slot? segment = some slot) :
    follow trailingDot (segment :: rest) d =
      match d.content? slot with
      | some child => follow trailingDot rest child
      | none => .ok none :=
  follow_cons_of_read? (Kind.read?_of_slot? h)

/-- The final dot of a path shows in messages only. -/
theorem follow_eq_ok_of_trailingDot {segments : List String} {found : Option Document} (other : Bool)
    (h : follow trailingDot segments d = .ok found) : follow other segments d = .ok found := by
  induction segments generalizing d with
  | nil => exact h
  | cons segment rest ih =>
    cases d with
    | scalar s => exact h
    | array items =>
      simp only [follow] at h ⊢
      cases hi : arrayIndex segment ⟨segment :: rest, trailingDot⟩ with
      | error fault => simp [hi] at h
      | ok index =>
        rw [hi] at h
        rw [arrayIndex_eq_ok_iff.mpr (arrayIndex_eq_ok_iff.mp hi)]
        cases hitem : items[index]? with
        | none => simpa [hitem] using h
        | some item =>
          simp only [hitem] at h ⊢
          exact ih h
    | object members =>
      simp only [follow] at h ⊢
      cases hmember : members.lookup segment with
      | none => simpa [hmember] using h
      | some member =>
        simp only [hmember] at h ⊢
        exact ih h

/-- One level of a write: the rest of it happens in the slot that the first segment names. -/
theorem place_cons_of_slot (h : d.kind.slot? segment = some slot) (trailingDot : Bool) (value : Document)
    (rest : List String) :
    place trailingDot value (segment :: rest) d =
      let edit := place trailingDot value rest (vivify rest (d.content slot))
      ⟨d.put slot edit.document, edit.fault⟩ := by
  cases d with
  | scalar s => cases s <;> simp [kind, Kind.slot?] at h
  | array items =>
    simp only [kind, Kind.slot?, Option.ite_none_right_eq_some, Option.some.injEq] at h
    obtain ⟨⟨hi, hl⟩, rfl⟩ := h
    have hok : arrayIndex segment ⟨segment :: rest, trailingDot⟩ = .ok (Path.indexValue segment) :=
      arrayIndex_eq_ok_iff.mpr ⟨hi, rfl, Nat.lt_of_le_of_lt hl indexLimit_lt_indexBound⟩
    simp only [place, hok, if_neg (Nat.not_lt.mpr hl), put, content, content?]
  | object members =>
    simp only [kind, Kind.slot?, Option.some.injEq] at h
    subst h
    rfl

/-- A segment that names no slot stops the write before it changes anything, whatever the value is. -/
theorem exists_fault_of_slot?_eq_none (h : d.kind.slot? segment = none) (trailingDot : Bool) (rest : List String) :
    ∃ fault, ∀ value, place trailingDot value (segment :: rest) d = ⟨d, some fault⟩ := by
  cases d with
  | scalar s => exact ⟨_, fun value => rfl⟩
  | array items =>
    simp only [place]
    cases hi : arrayIndex segment ⟨segment :: rest, trailingDot⟩ with
    | error fault => exact ⟨fault, fun value => rfl⟩
    | ok index =>
      obtain ⟨hd, rfl, -⟩ := arrayIndex_eq_ok_iff.mp hi
      have hl : indexLimit < Path.indexValue segment := by
        simpa [kind, Kind.slot?, hd] using h
      exact ⟨_, fun value => if_pos hl⟩
  | object members => simp [kind, Kind.slot?] at h

/-- The same for a write that nothing stops. -/
theorem place_cons_done? (d value : Document) (trailingDot : Bool) (segment : String) (rest : List String) :
    (place trailingDot value (segment :: rest) d).done? =
      (d.kind.slot? segment).bind fun slot =>
        (place trailingDot value rest (vivify rest (d.content slot))).done?.map (d.put slot) := by
  cases hslot : d.kind.slot? segment with
  | none =>
    obtain ⟨fault, hfault⟩ := exists_fault_of_slot?_eq_none hslot trailingDot rest
    rw [hfault, Option.bind_none]
    rfl
  | some slot =>
    rw [place_cons_of_slot hslot, Option.bind_some]
    simp only [Edit.done?]
    split <;> simp_all

theorem place_cons_done?_eq_some_iff :
    (place trailingDot value (segment :: rest) d).done? = some e ↔
      ∃ slot child, d.kind.slot? segment = some slot ∧
        (place trailingDot value rest (vivify rest (d.content slot))).done? = some child ∧ d.put slot child = e := by
  simp only [place_cons_done?, Option.bind_eq_some_iff, Option.map_eq_some_iff, exists_and_left]

theorem follow_of_place_done? {segments : List String}
    (h : (place trailingDot value segments d).done? = some e) :
    follow trailingDot segments e = .ok (some value) := by
  induction segments generalizing d e with
  | nil =>
    cases h
    rfl
  | cons segment rest ih =>
    obtain ⟨slot, child, hslot, hchild, rfl⟩ := place_cons_done?_eq_some_iff.mp h
    rw [follow_cons (slot?_put hslot), content?_put_self hslot]
    exact ih hchild

/-- What was written is read back, whatever the write had to make of the nodes on its way: new
containers, containers in place of nulls, padding of arrays. -/
theorem get_set (d : Document) (text : String) (value : Document)
    (h : (d.set (.ofText text) value).fault = none) :
    (d.set (.ofText text) value).document.get (.ofText text) = .ok (some value) :=
  follow_of_place_done? (Edit.done?_of_fault_eq_none h)

/-- A null gives way to an array, which is padded; then come an empty key and a final dot. -/
theorem get_set_padded :
    let d := object [("a", .null), ("b", .scalar (.bool true))]
    let edit := d.set (.ofText "a.002..x.") (.scalar (.string "v"))
    edit.fault = none ∧
      edit.document = object [("a", .array [.null, .null, object [("", object [("x", .scalar (.string "v"))])]]),
        ("b", .scalar (.bool true))] ∧
      edit.document.get (.ofText "a.002..x.") = .ok (some (.scalar (.string "v"))) := by
  intro d edit
  have h : edit.fault = none := by rfl
  exact ⟨h, rfl, get_set d "a.002..x." (.scalar (.string "v")) h⟩

end Document
end DocExport
