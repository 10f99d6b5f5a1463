import Mathlib.Data.List.Induction
import DocExport.Proofs.Selection
import DocExport.Proofs.Walk

/-! Keys of a restriction that overlap. A key is shown once its value is written, and stays shown until a later
key ends above it and brings a value that does not have what the first one goes on to. -/
namespace DocExport.Document
open DocExport.Path
variable {d e t child value : Document} {slot : Slot} {slots : List Slot} {segment : String}
  {rest path other segments part : List String} {trailingDot : Bool}

/-- A path ends at a node that another one leads to or through. Both may spell an index their own way. -/
def EndsAbove (t : Document) (upper lower : List String) : Prop :=
  ∃ slots, t.position? upper = some slots ∧ t.position? (lower.take upper.length) = some slots

/-- Something is found behind the segments. -/
def Has (d : Document) (segments : List String) : Prop := ∃ found, d.get ⟨segments, false⟩ = .ok (some found)

theorem has_segments_iff {key : String} :
    d.Has (ofText key).segments ↔ ∃ found, d.get (.ofText key) = .ok (some found) :=
  exists_congr fun _ => ⟨follow_eq_ok_of_trailingDot _, follow_eq_ok_of_trailingDot _⟩

theorem has_cons_of_slot (hslot : d.kind.slot? segment = some slot) (hchild : d.content? slot = some child) :
    d.Has (segment :: rest) ↔ child.Has rest := by
  simp only [Has, get, follow_cons hslot, hchild]

/-- A path leads to the node at its position. -/
theorem follow_eq_node? (h : d.position? segments = some slots) :
    follow trailingDot segments d = .ok (d.node? slots) := by
  induction segments generalizing d slots with
  | nil =>
    cases h
    rfl
  | cons segment rest ih =>
    obtain ⟨slot, hslot, h⟩ := Option.bind_eq_some_iff.mp h
    obtain ⟨more, hmore, rfl⟩ := Option.map_eq_some_iff.mp h
    rw [follow_cons hslot, node?]
    cases hchild : d.content? slot with
    | none => rfl
    | some child =>
      rw [content, hchild, Option.getD_some] at hmore
      exact ih hmore

/-- Where a path ends above another one, the value there has what the other goes on to, or nothing has. -/
theorem has_iff_of_endsAbove (h : t.EndsAbove path other)
    (hvalue : follow trailingDot path t = .ok (some value)) : t.Has other ↔ value.Has (other.drop path.length) := by
  obtain ⟨slots, hpath, hfront⟩ := h
  rw [follow_eq_node? hpath] at hvalue
  have hnode : follow false (other.take path.length) t = .ok (some value) := (follow_eq_node? hfront).trans hvalue
  have hfollow := follow_append hnode false (other.drop path.length)
  rw [List.take_append_drop] at hfollow
  simp only [Has, get, hfollow]

theorem EndsAbove.cons {x y : String} {upper lower : List String} (hx : t.kind.slot? x = some slot)
    (hy : t.kind.slot? y = some slot) (h : (t.content slot).EndsAbove upper lower) :
    t.EndsAbove (x :: upper) (y :: lower) := by
  obtain ⟨slots, hupper, hlower⟩ := h
  refine ⟨slot :: slots, ?_, ?_⟩
  · rw [position?, hx, Option.bind_some, hupper, Option.map_some]
  · rw [List.length_cons, List.take_succ_cons, position?, hy, Option.bind_some, hlower, Option.map_some]

/-- One write. What was found at another path is found there still, unless the write ends above it with a value
that does not have what the path goes on to. -/
theorem has_iff_of_place (h : (place trailingDot value path d).done? = some t) (hfound : d.Has other) :
    t.Has other ↔ (t.EndsAbove path other → value.Has (other.drop path.length)) := by
  refine ⟨fun hhas habove => (has_iff_of_endsAbove habove (follow_of_place_done? h)).mp hhas, ?_⟩
  induction path generalizing d t other with
  | nil =>
    cases h
    exact fun hrest => hrest ⟨[], rfl, rfl⟩
  | cons segment path ih =>
    intro hrest
    cases other with
    | nil => exact ⟨t, rfl⟩
    | cons own other =>
      obtain ⟨slot, child, hslot, hchild, rfl⟩ := place_cons_done?_eq_some_iff.mp h
      obtain ⟨found, hfound⟩ := hfound
      obtain ⟨seen, old, hread, hold, hbelow⟩ := exists_read?_of_follow hfound
      by_cases hsame : seen = slot
      · -- both go on in this slot; there is something in it, so the write does not open it
        subst hsame
        have hown := Kind.slot?_of_read? hslot hread
        rw [has_cons_of_slot (slot?_put hown) (content?_put_self hslot)]
        cases other with
        | nil => exact ⟨child, rfl⟩
        | cons next other =>
          rw [content, hold, Option.getD_some, vivify_of_kind_ne_null (kind_ne_null_of_follow hbelow)] at hchild
          refine ih hchild ⟨found, hbelow⟩ fun habove => hrest ?_
          rw [← content_put_self hslot child] at habove
          exact habove.cons (slot?_put hslot) (slot?_put hown)
      · -- the paths part here
        refine ⟨found, ?_⟩
        rw [get, follow_cons_of_read? ((kind_put ..).symm ▸ hread), content?_put_of_ne hsame hold]
        exact hbelow

/-- The last key of a restriction is a write into the restriction to the keys before it. -/
theorem restrict_concat {key : String} (h : restrict (part ++ [key]) d = .ok e) :
    ∃ t, (part ≠ [] → restrict part d = .ok t) ∧
      (place false (d.valueAt key) (ofText key).segments t).done? = some e := by
  obtain ⟨hget, hfill⟩ := (restrict_keys_eq_ok_iff (by simp)).mp h
  rw [List.map_append, fillAll_append, Option.bind_eq_some_iff] at hfill
  obtain ⟨t, ht, hlast⟩ := hfill
  have hkind : t.kind ≠ .null := by
    have hfilled := filled_of_fillAll (by simp [kind]) (by simp [copyOf, segments_ne_nil]) ht
    rw [hfilled.2.kind]
    simp [kind]
  refine ⟨t, fun hne => ?_, ?_⟩
  · exact (restrict_keys_eq_ok_iff hne).mpr ⟨fun own hown => hget own (List.mem_append_left _ hown), ht⟩
  · simpa [fillAll_cons, copyOf, fill, vivify_of_kind_ne_null hkind, fillAll] using hlast

/-- Every key is shown from when it is written on, in all initial parts of the list, exactly if no later key that
ends above it brings a value without what the key goes on to. The whole list is an initial part of itself. -/
theorem restrict_shown_iff (d : Document) (keys : List String) :
    (∀ part key s, part <+: keys → key ∈ part → restrict part d = .ok s →
        ∃ found, s.get (.ofText key) = .ok (some found)) ↔
      ∀ part later after key s, keys = part ++ later :: after → key ∈ part →
        restrict (part ++ [later]) d = .ok s → s.EndsAbove (pieces later) (pieces key) →
        (d.valueAt later).Has ((pieces key).drop (pieces later).length) := by
  simp only [← has_segments_iff, pieces_eq_segments]
  constructor
  · intro hshown part later after key s hkeys hkey hs habove
    obtain ⟨before, -, hlast⟩ := restrict_concat hs
    have hpart : part ++ [later] <+: keys := ⟨after, by simp [hkeys]⟩
    exact (has_iff_of_endsAbove habove (follow_of_place_done? hlast)).mp
      (hshown _ key s hpart (List.mem_append_left _ hkey) hs)
  · intro hkept part
    -- from the end: the last key is one write into what the others gave
    induction part using List.reverseRecOn with
    | nil => exact fun key s _ hkey => absurd hkey List.not_mem_nil
    | append_singleton part later ih =>
      intro key s hpart hkey hs
      obtain ⟨before, hbefore, hlast⟩ := restrict_concat hs
      rcases List.mem_append.mp hkey with hold | hnew
      · obtain ⟨after, hkeys⟩ := hpart
        have hshown : before.Has (ofText key).segments :=
          ih key before ⟨later :: after, by simpa using hkeys⟩ hold (hbefore (List.ne_nil_of_mem hold))
        refine (has_iff_of_place hlast hshown).mpr fun habove => ?_
        exact hkept part later after key s (by simpa using hkeys.symm) hold hs habove
      · rw [List.mem_singleton.mp hnew]
        exact ⟨_, follow_of_place_done? hlast⟩

/-- The second key ends above the first one and brings its value along. -/
theorem restrict_shown_inside :
    let d := object [("a", object [("b", .scalar (.bool true)), ("c", .null)])]
    let t := object [("a", object [("b", .scalar (.bool true)), ("c", .null), ("x", .null)])]
    restrict ["a.b", "a", "a.x"] d = .ok t ∧ t.get (.ofText "a.b") = .ok (some (.scalar (.bool true))) ∧
      ∀ key ∈ ["a.b", "a", "a.x"], ∃ found, t.get (.ofText key) = .ok (some found) := by
  intro d t
  have ht : restrict ["a.b", "a", "a.x"] d = .ok t := by rfl
  refine ⟨ht, rfl, fun key hkey => ?_⟩
  refine (restrict_shown_iff d ["a.b", "a", "a.x"]).mpr ?_ _ key t (List.prefix_refl _) hkey ht
  rintro (_ | ⟨first, _ | ⟨second, _ | ⟨third, part⟩⟩⟩) later after key s hkeys hkey - -
  all_goals rw [pieces_eq_segments, pieces_eq_segments]
  · exact absurd hkey List.not_mem_nil
  · cases hkeys
    cases List.mem_singleton.mp hkey
    exact ⟨_, rfl⟩
  · cases hkeys
    rcases List.mem_pair.mp hkey with rfl | rfl <;> exact ⟨_, rfl⟩
  · simp at hkeys

/-- The second key ends above the first one and has nothing there, so the first one is lost. The other way
around both are shown. -/
theorem restrict_overwritten :
    let d := object [("a", object [("c", .scalar (.bool true))])]
    (∃ t, restrict ["a.b", "a"] d = .ok t ∧ ¬ ∃ found, t.get (.ofText "a.b") = .ok (some found)) ∧
      restrict ["a", "a.b"] d = .ok (object [("a", object [("c", .scalar (.bool true)), ("b", .null)])]) := by
  refine ⟨⟨object [("a", object [("c", .scalar (.bool true))])], rfl, ?_⟩, rfl⟩
  rintro ⟨found, hfound⟩
  cases hfound

end DocExport.Document
