import DocExport.Proofs.Walk

/-! What a write leaves as it was: whatever is found at a path that parts from its own, the other members of
the objects on its way, and the document itself if it writes what is there. The last of two writes to a path
is the one that stays. -/
namespace DocExport
open DocExport.Path

/-- Segments that lead out of a container of this kind by different slots. -/
def Kind.Apart : Kind → String → String → Prop
  | .object, x, y => x ≠ y
  | .array, x, y => isIndex x ∧ isIndex y ∧ indexValue x ≠ indexValue y
  | _, _, _ => False

theorem Kind.Apart.slot_ne {kind : Kind} {x y : String} {slot own : Slot} (h : kind.Apart x y)
    (hx : kind.slot? x = some slot) (hy : kind.read? y = some own) : own ≠ slot := by
  cases kind with
  | object =>
    cases hx
    cases hy
    exact fun heq => h (Slot.key.inj heq).symm
  | array =>
    obtain ⟨-, hslot⟩ := Option.ite_none_right_eq_some.mp hx
    obtain ⟨-, hown⟩ := Option.ite_none_right_eq_some.mp hy
    cases hslot
    cases hown
    exact fun heq => h.2.2 (Slot.item.inj heq).symm
  | null | boolean | number | string => cases hx

theorem Kind.Apart.ne_null {kind : Kind} {x y : String} (h : kind.Apart x y) : kind ≠ .null := by
  rintro rfl
  exact h

namespace Document
variable {d node child value found : Document} {slot : Slot} {segment x y : String}
  {front rest more segments : List String} {trailingDot : Bool} {members : List Member}

/-- A write into a node leaves what is found behind another slot of it. -/
theorem follow_place_of_apart {dot : Bool} (h : d.kind.Apart x y)
    (hfound : follow dot (y :: more) d = .ok (some found)) (trailingDot : Bool) (value : Document)
    (rest : List String) :
    follow dot (y :: more) (place trailingDot value (x :: rest) d).document = .ok (some found) := by
  cases hslot : d.kind.slot? x with
  | none =>
    obtain ⟨fault, hfault⟩ := exists_fault_of_slot?_eq_none hslot trailingDot rest
    rwa [hfault]
  | some slot =>
    obtain ⟨own, child, hown, hchild, hfound⟩ := exists_read?_of_follow hfound
    rw [place_cons_of_slot hslot, follow_cons_of_read? ((kind_put ..).symm ▸ hown),
      content?_put_of_ne (h.slot_ne hslot hown) hchild]
    exact hfound

/-- What a write makes of a node on its way is the write from there on, if it is not stopped before. -/
theorem follow_place_append (hnode : follow false front d = .ok (some node)) (hkind : node.kind ≠ .null)
    (trailingDot : Bool) (value : Document) (segment : String) (rest : List String) :
    ∃ left, follow false front (place trailingDot value (front ++ segment :: rest) d).document = .ok (some left) ∧
      (left = node ∨ left = (place trailingDot value (segment :: rest) node).document) := by
  induction front generalizing d with
  | nil =>
    cases hnode
    exact ⟨_, rfl, .inr rfl⟩
  | cons own front ih =>
    cases hslot : d.kind.slot? own with
    | none =>
      obtain ⟨fault, hfault⟩ := exists_fault_of_slot?_eq_none hslot trailingDot (front ++ segment :: rest)
      rw [List.cons_append, hfault]
      exact ⟨node, hnode, .inl rfl⟩
    | some slot =>
      obtain ⟨slot', child, hslot', hchild, hbelow⟩ := exists_read?_of_follow hnode
      cases (Kind.read?_of_slot? hslot).symm.trans hslot'
      -- what the path goes on from is no null, and only nulls are opened
      have hopen : vivify (front ++ segment :: rest) child = child := by
        refine vivify_of_kind_ne_null ?_ _
        cases front with
        | nil =>
          cases hbelow
          exact hkind
        | cons next front => exact kind_ne_null_of_follow hbelow
      rw [List.cons_append, place_cons_of_slot hslot, content, hchild, Option.getD_some, hopen,
        follow_cons (slot?_put hslot), content?_put_self hslot]
      exact ih hbelow

theorem filter_setMember (key : String) (value : Document) (members : List Member) :
    (setMember key value members).filter (·.1 ≠ key) = members.filter (·.1 ≠ key) := by
  induction members with
  | nil => simp [setMember]
  | cons member members ih =>
    by_cases h : member.1 = key
    · simp [setMember, h]
    · simpa [setMember, h] using ih

/-- A write to a path, stopped or not. Behind the slots that another path leaves it by, at any node of both,
what was found is still found. The objects on the way keep their members in order; the one that the path goes on
in, if it is new, is the last. -/
theorem set_apart (d : Document) (text : String) (value : Document) :
    let left := (d.set (.ofText text) value).document
    (∀ other common x y rest more node found,
      (ofText text).segments = common ++ x :: rest → (ofText other).segments = common ++ y :: more →
      d.get ⟨common, false⟩ = .ok (some node) → node.kind.Apart x y →
      d.get (.ofText other) = .ok (some found) → left.get (.ofText other) = .ok (some found)) ∧
    ∀ front x rest members, (ofText text).segments = front ++ x :: rest →
      d.get ⟨front, false⟩ = .ok (some (.object members)) →
      ∃ now, left.get ⟨front, false⟩ = .ok (some (.object now)) ∧
        now.filter (·.1 ≠ x) = members.filter (·.1 ≠ x) ∧
        (now.map (·.1) = members.map (·.1) ∨
          x ∉ members.map (·.1) ∧ now.map (·.1) = members.map (·.1) ++ [x]) := by
  intro left
  have hleft {front rest : List String} {x : String} (h : (ofText text).segments = front ++ x :: rest) :
      left = (place (ofText text).trailingDot value (front ++ x :: rest) d).document := by
    rw [← h]
    rfl
  refine ⟨fun other common x y rest more node found htext hother hnode hapart hfound => ?_,
    fun front x rest members htext hnode => ?_⟩
  · obtain ⟨now, hnow, hsame⟩ := follow_place_append hnode hapart.ne_null (ofText text).trailingDot value x rest
    rw [get, hother, follow_append hnode] at hfound
    rw [get, hother, hleft htext, follow_append hnow]
    rcases hsame with rfl | rfl
    · exact hfound
    · exact follow_place_of_apart hapart hfound _ value rest
  · have hkind : (object members).kind ≠ .null := by simp [kind]
    obtain ⟨now, hnow, hsame⟩ := follow_place_append hnode hkind (ofText text).trailingDot value x rest
    rw [hleft htext]
    rcases hsame with rfl | rfl
    · exact ⟨members, hnow, rfl, .inl rfl⟩
    · refine ⟨_, hnow, filter_setMember .., ?_⟩
      by_cases hx : x ∈ members.map (·.1)
      · exact .inl (keys_setMember_of_mem hx _)
      · refine .inr ⟨hx, ?_⟩
        rw [setMember_of_not_mem hx, List.map_append]
        rfl

/-- Spellings of one index are different keys. The second write is stopped inside a scalar. -/
theorem set_apart_spellings :
    let d := object [("n", object [("0", .null), ("1", .scalar (.bool true))]),
      ("a", .array [.scalar (.bool false), .scalar (.string "s")])]
    let left := (d.set (.ofText "n.00.x") (.scalar (.string "v"))).document
    left.get (.ofText "n.0") = .ok (some .null) ∧
      (∃ now, left.get ⟨["n"], false⟩ = .ok (some (.object now)) ∧
        now.filter (·.1 ≠ "00") = [("0", .null), ("1", .scalar (.bool true))]) ∧
      (d.set (.ofText "a.00.x") .null).document.get (.ofText "a.1") = .ok (some (.scalar (.string "s"))) := by
  intro d left
  obtain ⟨hkeys, hmembers⟩ := set_apart d "n.00.x" (.scalar (.string "v"))
  obtain ⟨hitems, -⟩ := set_apart d "a.00.x" .null
  have hnames : Kind.object.Apart "00" "0" := show "00" ≠ "0" by decide
  have hindices : Kind.array.Apart "00" "1" := show isIndex "00" ∧ isIndex "1" ∧ _ by decide
  obtain ⟨now, hnow, hothers, -⟩ := hmembers ["n"] "00" ["x"] _ rfl rfl
  exact ⟨hkeys "n.0" ["n"] "00" "0" ["x"] [] _ _ rfl rfl rfl hnames rfl, ⟨now, hnow, hothers⟩,
    hitems "a.1" ["a"] "00" "1" ["x"] [] _ _ rfl rfl rfl hindices rfl⟩

/-- A path that finds something names a slot for writing, unless its index is over the limit. -/
theorem exists_slot?_of_follow (h : follow trailingDot (segment :: rest) d = .ok (some found))
    (hlimit : d.kind = .array → indexValue segment ≤ indexLimit) :
    ∃ slot child, d.kind.slot? segment = some slot ∧ d.content? slot = some child ∧
      follow trailingDot rest child = .ok (some found) := by
  obtain ⟨slot, child, hslot, hchild, hfound⟩ := exists_read?_of_follow h
  refine ⟨slot, child, ?_, hchild, hfound⟩
  cases d with
  | scalar s => cases hchild
  | array items =>
    obtain ⟨⟨hindex, -⟩, hitem⟩ := Option.ite_none_right_eq_some.mp hslot
    rw [← hitem]
    exact if_pos ⟨hindex, hlimit rfl⟩
  | object members => exact hslot

theorem setMember_of_lookup {key : String} (h : members.lookup key = some value) :
    setMember key value members = members := by
  induction members with
  | nil => cases h
  | cons member members ih =>
    obtain ⟨k, v⟩ := member
    by_cases hk : k = key
    · subst hk
      cases (List.lookup_cons_self).symm.trans h
      simp [setMember]
    · have hb : (key == k) = false := by simpa using Ne.symm hk
      have hrest : members.lookup key = some value := by simpa [List.lookup_cons, hb] using h
      simp [setMember, hk, ih hrest]

/-- Putting a child where it is changes nothing. -/
theorem put_of_content? (h : d.content? slot = some child) : d.put slot child = d := by
  cases d with
  | scalar s => cases h
  | array items =>
    cases slot with
    | key name => cases h
    | item position =>
      obtain ⟨hlt, rfl⟩ := List.getElem?_eq_some_iff.mp h
      have hpad : items.rightpad (position + 1) .null = items := by
        rw [List.rightpad, Nat.sub_eq_zero_of_le hlt, List.replicate_zero, List.append_nil]
      rw [put, hpad, List.set_getElem_self]
  | object members =>
    cases slot with
    | key name => rw [put, setMember_of_lookup h]
    | item position => cases h

theorem vivify_of_follow (h : follow trailingDot segments d = .ok (some found)) : vivify segments d = d := by
  cases segments with
  | nil => rfl
  | cons segment rest => exact vivify_of_kind_ne_null (kind_ne_null_of_follow h) _

/-- Writing what is there changes nothing. -/
theorem place_of_follow (h : follow trailingDot segments d = .ok (some found))
    (hlimit : ∀ items segment rest, d.Meets segments (.array items) segment rest → indexValue segment ≤ indexLimit) :
    place trailingDot found segments d = ⟨d, none⟩ := by
  induction segments generalizing d with
  | nil =>
    cases h
    rfl
  | cons segment rest ih =>
    obtain ⟨slot, child, hslot, hchild, hfound⟩ := exists_slot?_of_follow h (by
      intro hd
      cases d with
      | scalar s => cases h
      | array items => exact hlimit items segment rest (meets_self _ _ _)
      | object members => cases hd)
    have hbelow := ih hfound fun items own more hmet =>
      hlimit items own more ((meets_cons_iff hslot).mpr (.inr ⟨child, hchild, hmet⟩))
    rw [place_cons_of_slot hslot, content, hchild, Option.getD_some, vivify_of_follow hfound, hbelow]
    simp only [put_of_content? hchild]

/-- The last of two writes to a path is the one that stays. -/
theorem place_place (h : (place trailingDot value segments d).done? = some node) (last : Document) :
    ∃ e, (place trailingDot last segments node).done? = some e ∧ (place trailingDot last segments d).done? = some e := by
  induction segments generalizing d node with
  | nil => exact ⟨last, rfl, rfl⟩
  | cons segment rest ih =>
    obtain ⟨slot, child, hslot, hchild, rfl⟩ := place_cons_done?_eq_some_iff.mp h
    obtain ⟨e, hagain, hfresh⟩ := ih hchild
    -- the first write has opened what there is to open
    have hopen : vivify rest child = child := vivify_of_follow (follow_of_place_done? hchild)
    refine ⟨d.put slot e, ?_, place_cons_done?_eq_some_iff.mpr ⟨slot, e, hslot, hfresh, rfl⟩⟩
    refine place_cons_done?_eq_some_iff.mpr ⟨slot, e, slot?_put hslot, ?_, put_put hslot child e⟩
    rw [content_put_self hslot, hopen, hagain]

/-- What is found at a path can be written back and changes nothing, member order included, if no index on the
way is over the limit. If a write succeeds then so does another to the same path, behind it or in its place, and
both leave the same document. -/
theorem set_lens (d : Document) (text : String) :
    (∀ found, d.get (.ofText text) = .ok (some found) →
      (∀ items segment rest, d.Meets (ofText text).segments (.array items) segment rest →
        indexValue segment ≤ indexLimit) →
      d.set (.ofText text) found = ⟨d, none⟩) ∧
    ∀ first last, (d.set (.ofText text) first).fault = none →
      ∃ e, (d.set (.ofText text) first).document.set (.ofText text) last = ⟨e, none⟩ ∧
        d.set (.ofText text) last = ⟨e, none⟩ := by
  refine ⟨fun found hfound hlimit => place_of_follow hfound hlimit, fun first last hfirst => ?_⟩
  obtain ⟨e, hagain, hfresh⟩ := place_place (Edit.done?_of_fault_eq_none hfirst) last
  exact ⟨e, Edit.done?_eq_some_iff.mp hagain, Edit.done?_eq_some_iff.mp hfresh⟩

/-- Padding, and containers in place of a null, are made by the first write alone. -/
theorem set_lens_padded :
    let d := object [("a", .array [.null, object [("k", .scalar (.bool true))]]), ("b", .null)]
    d.set (.ofText "a.01.k") (.scalar (.bool true)) = ⟨d, none⟩ ∧
      (d.set (.ofText "b.1.x") .null).fault = none ∧
      ∃ e, (d.set (.ofText "b.1.x") .null).document.set (.ofText "b.1.x") (.scalar (.string "v")) = ⟨e, none⟩ ∧
        d.set (.ofText "b.1.x") (.scalar (.string "v")) = ⟨e, none⟩ := by
  intro d
  have hlimit (items : List Document) (segment : String) (rest : List String)
      (hmet : d.Meets ["a", "01", "k"] (.array items) segment rest) : indexValue segment ≤ indexLimit := by
    obtain ⟨_ | ⟨first, _ | ⟨second, _ | ⟨third, front⟩⟩⟩, hsegments, hnode⟩ := hmet
    · simp [d, get, follow] at hnode
    · cases hsegments
      decide
    · cases hsegments
      cases hnode
    · simp at hsegments
  have hfault : (d.set (.ofText "b.1.x") .null).fault = none := rfl
  obtain ⟨hback, -⟩ := set_lens d "a.01.k"
  obtain ⟨-, hlast⟩ := set_lens d "b.1.x"
  exact ⟨hback (.scalar (.bool true)) rfl hlimit, hfault, hlast .null (.scalar (.string "v")) hfault⟩

end Document
end DocExport
