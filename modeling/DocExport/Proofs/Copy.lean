import DocExport.Proofs.Address

/-! Many values copied into one document, each to its path. Copies into different slots do not
disturb each other, so what a list of copies makes of a node is settled slot by slot. That gives
the exact condition under which all copies go through and every value stays readable. -/
namespace DocExport

/-- A value copied to a path: what is written there, and what is to be read there in the end. -/
structure Copy where
  segments : List String
  written : Document
  wanted : Document

/-- The copy seen from the container that it enters by a segment. -/
def Copy.under (segment : String) (copy : Copy) : Copy :=
  { copy with segments := segment :: copy.segments }

/-- What is left of a copy below a slot, none if it leads elsewhere. -/
def Copy.below? (kind : Kind) (slot : Slot) (copy : Copy) : Option Copy :=
  match copy.segments with
  | [] => none
  | segment :: rest =>
    if kind.slot? segment = some slot then some { copy with segments := rest } else none

/-- The copies that lead into a slot of a container, as they go on below it. -/
def Copy.branch (kind : Kind) (slot : Slot) (copies : List Copy) : List Copy :=
  copies.filterMap (below? kind slot)

/-- Every copy goes on into a slot of a container of this kind. -/
def Copy.Enter (kind : Kind) (copies : List Copy) : Prop :=
  ∀ copy ∈ copies, ∃ segment rest slot, copy.segments = segment :: rest ∧ kind.slot? segment = some slot

/-- What a null slot becomes for a path that goes on with `segment`. -/
def Kind.opening (segment : String) : Kind := if Path.isIndex segment then .array else .object

/-- A null slot opened for a segment takes it, unless it is an index over the limit. -/
theorem Kind.isSome_slot?_opening (segment : String) :
    ((opening segment).slot? segment).isSome ↔ (Path.isIndex segment → Path.indexValue segment ≤ Document.indexLimit) := by
  unfold opening
  by_cases h : Path.isIndex segment <;> simp [h, slot?]

namespace Document
variable {d e : Document} {copy : Copy} {copies : List Copy} {slot : Slot} {segment : String}
  {rest segments : List String} {trailingDot : Bool}

/-- A slot after a write into it or below it, none if the write is stopped. -/
def fill (value : Document) (segments : List String) (d : Document) : Option Document :=
  (place false value segments (vivify segments d)).done?

/-- A node after all copies into it or below it, in order. -/
def fillAll (copies : List Copy) (d : Document) : Option Document :=
  copies.foldlM (fun d copy => fill copy.written copy.segments d) d

/-- The final dot of a path shows in messages only. -/
theorem place_done?_trailingDot (trailingDot : Bool) (value : Document) (segments : List String) (d : Document) :
    (place trailingDot value segments d).done? = (place false value segments d).done? := by
  induction segments generalizing d with
  | nil => rfl
  | cons segment rest ih => simp only [place_cons_done?, ih]

theorem vivify_of_kind_ne_null (h : d.kind ≠ .null) (segments : List String) : vivify segments d = d := by
  unfold vivify
  split
  · exact absurd rfl h
  · rfl

theorem eq_null_of_kind (h : d.kind = .null) : d = .null := by
  cases d with
  | scalar s =>
    cases s with
    | null => rfl
    | bool | number | string => cases h
  | array items => cases h
  | object members => cases h

theorem kind_vivify_null (segment : String) (rest : List String) :
    (vivify (segment :: rest) .null).kind = Kind.opening segment := by
  simp only [vivify, Kind.opening]
  split <;> rfl

theorem kind_vivify_ne_null (segment : String) (rest : List String) (d : Document) :
    (vivify (segment :: rest) d).kind ≠ .null := by
  by_cases hd : d.kind = .null
  · rw [eq_null_of_kind hd, kind_vivify_null, Kind.opening]
    split <;> simp
  · rwa [vivify_of_kind_ne_null hd]

theorem content_vivify_null (segment : String) (rest : List String) (slot : Slot) :
    (vivify (segment :: rest) .null).content slot = .null := by
  simp only [vivify]
  split <;> cases slot <;> rfl

theorem fill_cons (h : d.kind ≠ .null) (value : Document) (segment : String) (rest : List String) :
    fill value (segment :: rest) d =
      (d.kind.slot? segment).bind fun slot => (fill value rest (d.content slot)).map (d.put slot) := by
  rw [fill, vivify_of_kind_ne_null h, place_cons_done?]
  rfl

theorem fill_null (value : Document) (segment : String) (rest : List String) :
    fill value (segment :: rest) .null = fill value (segment :: rest) (vivify (segment :: rest) .null) := by
  rw [fill, fill, vivify_of_kind_ne_null (kind_vivify_ne_null segment rest .null)]

theorem fillAll_cons (copy : Copy) (copies : List Copy) (d : Document) :
    fillAll (copy :: copies) d = (fill copy.written copy.segments d).bind (fillAll copies) :=
  List.foldlM_cons ..

theorem fillAll_append (first second : List Copy) (d : Document) :
    fillAll (first ++ second) d = (fillAll first d).bind (fillAll second) :=
  List.foldlM_append ..

/-- Values at the node itself replace each other, so the last one stays. -/
theorem fillAll_of_segments_eq_nil (h : ∀ copy ∈ copies, copy.segments = []) (d : Document) :
    fillAll copies d = some ((copies.getLast?.map (·.written)).getD d) := by
  induction copies generalizing d with
  | nil => rfl
  | cons copy copies ih =>
    have hf : fill copy.written copy.segments d = some copy.written := by
      rw [h copy List.mem_cons_self]
      rfl
    rw [fillAll_cons, hf]
    refine (ih (fun c hc => h c (List.mem_cons_of_mem _ hc)) _).trans ?_
    cases copies <;> simp [List.getLast?_cons]

/-- No slot is emptied. -/
theorem isSome_content?_put {other : Slot} (slot : Slot) (child : Document)
    (h : (d.content? other).isSome) : ((d.put slot child).content? other).isSome := by
  cases d with
  | scalar s => exact h
  | array items =>
    cases slot <;> cases other <;> first | exact h | skip
    simp only [put, content?, isSome_getElem?, List.length_set, List.length_rightpad] at h ⊢
    omega
  | object members =>
    cases slot <;> cases other <;> first | exact h | skip
    rename_i name other
    by_cases hn : other = name
    · simp only [put, content?, hn, lookup_setMember_self, Option.isSome_some]
    · simpa only [put, content?, lookup_setMember_of_ne _ _ hn] using h

theorem content_put_self (h : d.kind.slot? segment = some slot) (child : Document) :
    (d.put slot child).content slot = child := by
  rw [content, content?_put_self h, Option.getD_some]

theorem branch_cons_of_slot {kind : Kind} (hs : copy.segments = segment :: rest)
    (h : kind.slot? segment = some slot) :
    Copy.branch kind slot (copy :: copies) = { copy with segments := rest } :: Copy.branch kind slot copies := by
  have hb : copy.below? kind slot = some { copy with segments := rest } := by
    simp [Copy.below?, hs, h]
  rw [Copy.branch, List.filterMap_cons_some hb]
  rfl

theorem branch_cons_of_ne {kind : Kind} {other : Slot} (hs : copy.segments = segment :: rest)
    (h : kind.slot? segment = some slot) (hne : other ≠ slot) :
    Copy.branch kind other (copy :: copies) = Copy.branch kind other copies := by
  have hb : copy.below? kind other = none := by
    simp [Copy.below?, hs, h, Ne.symm hne]
  rw [Copy.branch, List.filterMap_cons_none hb]
  rfl

/-- What copies made of a container, slot by slot. -/
structure Filled (copies : List Copy) (d e : Document) : Prop where
  kind : e.kind = d.kind
  content : ∀ slot, fillAll (Copy.branch d.kind slot copies) (d.content slot) = some (e.content slot)
  present : ∀ slot, (d.content? slot).isSome ∨ Copy.branch d.kind slot copies ≠ [] → (e.content? slot).isSome

/-- One copy into a slot, then the others. -/
theorem Filled.cons {child : Document} (hs : copy.segments = segment :: rest)
    (hslot : d.kind.slot? segment = some slot)
    (hchild : fill copy.written rest (d.content slot) = some child)
    (h : Filled copies (d.put slot child) e) : Filled (copy :: copies) d e where
  kind := h.kind.trans (kind_put ..)
  content := by
    intro other
    have hc := h.content other
    rw [kind_put] at hc
    by_cases ho : other = slot
    · subst ho
      rw [branch_cons_of_slot hs hslot, fillAll_cons]
      rw [content_put_self hslot] at hc
      exact hchild ▸ hc
    · rw [branch_cons_of_ne hs hslot ho]
      rwa [content_put_of_ne ho] at hc
  present := by
    intro other ho
    have hp := h.present other
    rw [kind_put] at hp
    by_cases hso : other = slot
    · subst hso
      exact hp (.inl (by rw [content?_put_self hslot]; rfl))
    · rw [branch_cons_of_ne hs hslot hso] at ho
      exact hp (ho.imp_left (isSome_content?_put slot child))

/-- Copies that enter a container go through if they do below every slot. -/
theorem exists_filled (hd : d.kind ≠ .null) (henter : Copy.Enter d.kind copies)
    (hslots : ∀ slot, ∃ child, fillAll (Copy.branch d.kind slot copies) (d.content slot) = some child) :
    ∃ e, fillAll copies d = some e ∧ Filled copies d e := by
  induction copies generalizing d with
  | nil => exact ⟨d, rfl, rfl, fun _ => rfl, fun _ h => h.resolve_right (fun hne => hne rfl)⟩
  | cons copy copies ih =>
    obtain ⟨segment, rest, slot, hs, hslot⟩ := henter copy List.mem_cons_self
    obtain ⟨last, hlast⟩ := hslots slot
    rw [branch_cons_of_slot hs hslot, fillAll_cons] at hlast
    obtain ⟨child, hchild, hmore⟩ := Option.bind_eq_some_iff.mp hlast
    have hput := kind_put d slot child
    have hothers (other : Slot) : ∃ child', fillAll (Copy.branch (d.put slot child).kind other copies)
        ((d.put slot child).content other) = some child' := by
      rw [hput]
      by_cases ho : other = slot
      · subst ho
        exact ⟨last, by rw [content_put_self hslot, hmore]⟩
      · obtain ⟨child', hchild'⟩ := hslots other
        rw [branch_cons_of_ne hs hslot ho] at hchild'
        exact ⟨child', by rw [content_put_of_ne ho, hchild']⟩
    obtain ⟨e, he, hfilled⟩ := ih (hput ▸ hd)
      (hput ▸ fun c hc => henter c (List.mem_cons_of_mem _ hc)) hothers
    refine ⟨e, ?_, hfilled.cons hs hslot hchild⟩
    rw [fillAll_cons, hs, fill_cons hd, hslot, Option.bind_some, hchild, Option.map_some,
      Option.bind_some, he]

/-- Copies that went through did so slot by slot. -/
theorem filled_of_fillAll (hd : d.kind ≠ .null) (hne : ∀ copy ∈ copies, copy.segments ≠ [])
    (h : fillAll copies d = some e) : Copy.Enter d.kind copies ∧ Filled copies d e := by
  induction copies generalizing d with
  | nil =>
    cases h
    exact ⟨fun c hc => absurd hc List.not_mem_nil, rfl, fun _ => rfl,
      fun _ h => h.resolve_right (fun hne => hne rfl)⟩
  | cons copy copies ih =>
    obtain ⟨segment, rest, hs⟩ := List.exists_cons_of_ne_nil (hne copy List.mem_cons_self)
    rw [fillAll_cons, hs, fill_cons hd] at h
    obtain ⟨d', hd', he⟩ := Option.bind_eq_some_iff.mp h
    obtain ⟨slot, hslot, hput⟩ := Option.bind_eq_some_iff.mp hd'
    obtain ⟨child, hchild, rfl⟩ := Option.map_eq_some_iff.mp hput
    have hk := kind_put d slot child
    obtain ⟨henter, hfilled⟩ := ih (hk ▸ hd) (fun c hc => hne c (List.mem_cons_of_mem _ hc)) he
    rw [hk] at henter
    refine ⟨?_, hfilled.cons hs hslot hchild⟩
    intro c hc
    rcases List.mem_cons.mp hc with rfl | hc
    · exact ⟨segment, rest, slot, hs, hslot⟩
    · exact henter c hc

end Document
end DocExport
