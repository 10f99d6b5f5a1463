import Mathlib.Data.List.Forall2
import DocExport.Proofs.Path
import DocExport.Proofs.Walk

/-! When a write is stopped. What it meets on its way decides that, and the segments behind the first empty
slot; the value has no part in it. -/
namespace DocExport
open DocExport.Path

/-- Spellings of one index. They differ in the zeros in front. -/
def Path.SameIndex (x y : String) : Prop := isIndex x ∧ isIndex y ∧ indexValue x = indexValue y

instance (x y : String) : Decidable (SameIndex x y) := inferInstanceAs (Decidable (_ ∧ _))

namespace Document
variable {d value : Document} {slot : Slot} {segment : String} {rest segments others : List String}
  {trailingDot : Bool}

/-- What stops a write at a node, with `segment` to be applied to it and `rest` behind that. -/
inductive Stops : Document → String → List String → Prop where
  /-- A scalar that is not null does not give way. -/
  | inside {s : Scalar} {segment : String} {rest : List String} : s ≠ .null → Stops (.scalar s) segment rest
  | index {items : List Document} {segment : String} {rest : List String} :
    ¬ isIndex segment ∨ indexLimit < indexValue segment → Stops (.array items) segment rest
  /-- A container that has nothing to go on in. What is made there takes every segment that follows, but for
  an index over the limit. -/
  | opened {node : Document} {segment next : String} {rest : List String} :
    node.kind = .array ∨ node.kind = .object →
    node.get ⟨[segment], false⟩ = .ok none ∨ node.get ⟨[segment], false⟩ = .ok (some .null) →
    next ∈ rest → isIndex next → indexLimit < indexValue next → Stops node segment rest

/-- What stops a write along a path. At the root not even a null gives way. -/
def Blocked (d : Document) (segments : List String) : Prop :=
  (∃ s, d = .scalar s) ∨ ∃ node segment rest, d.Meets segments node segment rest ∧ node.Stops segment rest

theorem not_stops_null : ¬ null.Stops segment rest := by
  rintro (hs | - | ⟨hkind | hkind, -⟩)
  · exact hs rfl
  · cases hkind
  · cases hkind

theorem fault_place_cons :
    (place trailingDot value (segment :: rest) d).fault = none ↔
      ∃ slot, d.kind.slot? segment = some slot ∧
        (place trailingDot value rest (vivify rest (d.content slot))).fault = none := by
  cases hslot : d.kind.slot? segment with
  | none =>
    obtain ⟨fault, hfault⟩ := exists_fault_of_slot?_eq_none hslot trailingDot rest
    simp [hfault]
  | some slot => simp [place_cons_of_slot hslot]

/-- Containers made on the way take every segment but indices over the limit. -/
theorem fault_place_vivify_null (trailingDot : Bool) (value : Document) (segments : List String) :
    (place trailingDot value segments (vivify segments .null)).fault = none ↔
      ∀ next ∈ segments, isIndex next → indexValue next ≤ indexLimit := by
  induction segments with
  | nil => exact ⟨nofun, fun _ => rfl⟩
  | cons segment rest ih =>
    rw [fault_place_cons, kind_vivify_null, List.forall_mem_cons, ← Kind.isSome_slot?_opening, ← ih,
      Option.isSome_iff_exists]
    simp only [content_vivify_null, exists_and_right]

theorem blocked_of_slot?_eq_none (h : d.kind.slot? segment = none) : d.Blocked (segment :: rest) := by
  cases d with
  | scalar s => exact .inl ⟨s, rfl⟩
  | array items =>
    have hindex : ¬ isIndex segment ∨ indexLimit < indexValue segment := by
      simpa [kind, Kind.slot?, or_iff_not_imp_left] using h
    exact .inr ⟨_, segment, rest, meets_self _ _ _, .index hindex⟩
  | object members => cases h

/-- A segment that names a slot stops a write if the slot is empty and an index over the limit follows. -/
theorem stops_iff_of_slot (hslot : d.kind.slot? segment = some slot) :
    d.Stops segment rest ↔ d.content slot = .null ∧ ∃ next ∈ rest, isIndex next ∧ indexLimit < indexValue next := by
  have hget : d.get ⟨[segment], false⟩ = .ok (d.content? slot) := by
    rw [get, follow_cons hslot]
    cases d.content? slot <;> rfl
  constructor
  · intro h
    cases h with
    | @inside s hs => cases s <;> cases hslot
    | index hindex =>
      obtain ⟨⟨hdigits, hlimit⟩, -⟩ := Option.ite_none_right_eq_some.mp hslot
      exact absurd hindex (not_or.mpr ⟨not_not_intro hdigits, Nat.not_lt.mpr hlimit⟩)
    | opened hkind hempty hnext hi hlimit =>
      rw [hget] at hempty
      refine ⟨?_, _, hnext, hi, hlimit⟩
      rcases hempty with h | h <;> rw [content, Except.ok.inj h] <;> rfl
  · rintro ⟨hnull, next, hnext, hi, hlimit⟩
    refine .opened ?_ ?_ hnext hi hlimit
    · cases d with
      | scalar s => cases s <;> cases hslot
      | array items => exact .inl rfl
      | object members => exact .inr rfl
    · rw [hget]
      cases hchild : d.content? slot with
      | none => exact .inl rfl
      | some child =>
        rw [content, hchild] at hnull
        exact .inr (by rw [← hnull]; rfl)

/-- Behind a segment that names a slot, a write is blocked in what the slot holds, or by what it would make
of an empty slot. -/
theorem blocked_cons_iff (hslot : d.kind.slot? segment = some slot) :
    d.Blocked (segment :: rest) ↔
      (d.content slot = .null ∧ ∃ next ∈ rest, isIndex next ∧ indexLimit < indexValue next) ∨
        d.content slot ≠ .null ∧ rest ≠ [] ∧ (d.content slot).Blocked rest := by
  rw [← stops_iff_of_slot hslot]
  constructor
  · rintro (⟨s, rfl⟩ | ⟨node, own, more, hmet, hstops⟩)
    · cases s <;> cases hslot
    · obtain ⟨rfl, rfl, rfl⟩ | ⟨child, hchild, hbelow⟩ := (meets_cons_iff hslot).mp hmet
      · exact .inl hstops
      · rw [content, hchild, Option.getD_some]
        refine .inr ⟨?_, ?_, .inr ⟨node, own, more, hbelow, hstops⟩⟩
        · rintro rfl
          exact not_stops_null (eq_null_of_meets hbelow ▸ hstops)
        · rintro rfl
          exact not_meets_nil hbelow
  · rintro (hstops | ⟨hnull, hne, hblocked⟩)
    · exact .inr ⟨d, segment, rest, meets_self _ _ _, hstops⟩
    · have hmeets {node : Document} {own : String} {more : List String}
          (hmet : (d.content slot).Meets rest node own more) : d.Meets (segment :: rest) node own more :=
        (meets_cons_iff hslot).mpr (.inr ⟨_, content?_eq_some hnull, hmet⟩)
      rcases hblocked with ⟨s, hs⟩ | ⟨node, own, more, hmet, hstops⟩
      · obtain ⟨next, more, rfl⟩ := List.exists_cons_of_ne_nil hne
        rw [hs] at hnull hmeets
        exact .inr ⟨_, next, more, hmeets (meets_self _ _ _), .inside fun h => hnull (h ▸ rfl)⟩
      · exact .inr ⟨node, own, more, hmeets hmet, hstops⟩

theorem fault_place_eq_none_iff (trailingDot : Bool) (value d : Document) (segment : String) (rest : List String) :
    (place trailingDot value (segment :: rest) d).fault = none ↔ ¬ d.Blocked (segment :: rest) := by
  induction rest generalizing d segment with
  | nil =>
    cases hslot : d.kind.slot? segment with
    | none => simp [fault_place_cons, hslot, blocked_of_slot?_eq_none hslot]
    | some slot => simp [fault_place_cons, hslot, blocked_cons_iff hslot, place]
  | cons next rest ih =>
    cases hslot : d.kind.slot? segment with
    | none => simp [fault_place_cons, hslot, blocked_of_slot?_eq_none hslot]
    | some slot =>
      rw [fault_place_cons, blocked_cons_iff hslot]
      by_cases hnull : d.content slot = .null
      · simp [hslot, hnull, fault_place_vivify_null]
      · have hkind : (d.content slot).kind ≠ .null := fun hkind => hnull (eq_null_of_kind hkind)
        simp [hslot, hnull, vivify_of_kind_ne_null hkind, ih]

/-- The value has no part in what stops a write. -/
theorem fault_place_congr (value other : Document) :
    (place trailingDot other segments d).fault = (place trailingDot value segments d).fault := by
  induction segments generalizing d with
  | nil => rfl
  | cons segment rest ih =>
    cases hslot : d.kind.slot? segment with
    | none =>
      obtain ⟨fault, hfault⟩ := exists_fault_of_slot?_eq_none hslot trailingDot rest
      rw [hfault, hfault]
    | some slot =>
      rw [place_cons_of_slot hslot, place_cons_of_slot hslot]
      exact ih

/-- Paths that differ at most in how they spell an index, and not where an object takes it for a key. -/
structure Respelled (d : Document) (segments others : List String) : Prop where
  spelling : List.Forall₂ (fun x y => x = y ∨ SameIndex x y) segments others
  keys : ∀ front segment rest members, segments = front ++ segment :: rest →
    d.get ⟨front, false⟩ = .ok (some (.object members)) → others[front.length]? = some segment

theorem Respelled.slot?_eq {x y : String} (h : d.Respelled (x :: segments) (y :: others)) :
    d.kind.slot? y = d.kind.slot? x := by
  obtain ⟨hspelling, -⟩ := List.forall₂_cons.mp h.spelling
  rcases hspelling with rfl | ⟨hx, hy, hvalue⟩
  · rfl
  · cases d with
    | scalar s => cases s <;> rfl
    | array items => simp only [kind, Kind.slot?, hx, hy, hvalue]
    | object members =>
      have hkey := h.keys [] x segments members rfl rfl
      rw [Option.some.inj hkey]

theorem vivify_respelled (h : List.Forall₂ (fun x y => x = y ∨ SameIndex x y) segments others) (d : Document) :
    vivify others d = vivify segments d := by
  cases h with
  | nil => rfl
  | @cons x y segments others hspelling _ =>
    have hform : isIndex y = isIndex x := by
      rcases hspelling with rfl | ⟨hx, hy, -⟩
      · rfl
      · rw [hx, hy]
    unfold vivify
    split <;> simp_all

/-- What is left of the paths is respelled below the slot that they go on in. -/
theorem Respelled.below {x y : String} (h : d.Respelled (x :: segments) (y :: others))
    (hslot : d.kind.slot? x = some slot) : (vivify segments (d.content slot)).Respelled segments others where
  spelling := (List.forall₂_cons.mp h.spelling).2
  keys := by
    intro front segment rest members hsegments hnode
    by_cases hnull : (d.content slot).kind = .null
    · rw [eq_null_of_kind hnull] at hnode
      cases front with
      | nil =>
        -- an object is opened for a key only
        cases hsegments
        have hopened : vivify (segment :: rest) .null = .object members := Option.some.inj (Except.ok.inj hnode)
        obtain ⟨y, more, hy, -, rfl⟩ := List.forall₂_cons_left_iff.mp (List.forall₂_cons.mp h.spelling).2
        rcases hy with rfl | ⟨hindex, -⟩
        · rfl
        · simp [vivify, hindex] at hopened
      | cons own front =>
        cases hsegments
        obtain ⟨empty, child, -, hchild, hfound⟩ := exists_read?_of_follow hnode
        have hcontent := content_vivify_null own (front ++ segment :: rest) empty
        rw [List.cons_append] at hchild
        rw [content, hchild, Option.getD_some] at hcontent
        rw [hcontent] at hfound
        cases front <;> cases hfound
    · have hfilled := content?_eq_some fun h => hnull (h ▸ rfl)
      rw [vivify_of_kind_ne_null hnull] at hnode
      have hkey := h.keys (x :: front) segment rest members (by rw [hsegments]; rfl)
        (by rw [get, follow_cons hslot, hfilled]; exact hnode)
      simpa using hkey

theorem done?_place_respelled (h : d.Respelled segments others) (trailingDot other : Bool) (value : Document) :
    (place other value others d).done? = (place trailingDot value segments d).done? := by
  induction segments generalizing d others with
  | nil =>
    obtain rfl := List.forall₂_nil_left_iff.mp h.spelling
    rfl
  | cons x segments ih =>
    obtain ⟨y, others, -, -, rfl⟩ := List.forall₂_cons_left_iff.mp h.spelling
    rw [place_cons_done?, place_cons_done?, h.slot?_eq]
    refine Option.bind_congr fun slot hslot => ?_
    have hbelow := h.below hslot
    rw [vivify_respelled hbelow.spelling, ih hbelow]

/-- A write fails exactly if something on its way blocks it: the root, a scalar, a segment that an array
cannot take, or an index over the limit behind the first empty slot. The value has no part in that. Zeros in
front of an index change nothing where no object takes it for a key: both writes are stopped, or both make the
same document. -/
theorem set_fault_iff (d : Document) (text : String) (value : Document) :
    ((d.set (.ofText text) value).fault ≠ none ↔ d.Blocked (ofText text).segments) ∧
      (∀ other, (d.set (.ofText text) other).fault = (d.set (.ofText text) value).fault) ∧
      ∀ other, d.Respelled (ofText text).segments (ofText other).segments →
        (d.set (.ofText other) value).done? = (d.set (.ofText text) value).done? := by
  refine ⟨?_, fun other => fault_place_congr value other, fun other h => done?_place_respelled h _ _ value⟩
  obtain ⟨segment, rest, hsegments⟩ := List.exists_cons_of_ne_nil (segments_ne_nil text)
  rw [set, hsegments, ne_eq, fault_place_eq_none_iff, not_not]

/-- Zeros in front of an index of an array, and of one that an array is made for. -/
theorem set_fault_iff_zeros :
    let d := object [("a", .array [.null]), ("b", .scalar (.bool true))]
    let made := object [("a", .array [.array [.null, .null, .scalar (.string "v")]]), ("b", .scalar (.bool true))]
    d.Respelled ["a", "0", "2"] ["a", "000", "02"] ∧
      (d.set (.ofText "a.000.02") (.scalar (.string "v"))).done? = some made ∧
      d.Blocked ["a", "0", "065536"] ∧ (d.set (.ofText "a.0.065536") .null).fault ≠ none := by
  intro d made
  have hrespelled : d.Respelled ["a", "0", "2"] ["a", "000", "02"] := by
    refine ⟨.cons (.inl rfl) (.cons (.inr (by decide)) (.cons (.inr (by decide)) .nil)), ?_⟩
    rintro (_ | ⟨first, _ | ⟨second, _ | ⟨third, front⟩⟩⟩) segment rest members hsegments hnode
    · cases hsegments
      rfl
    · cases hsegments
      cases hnode
    · cases hsegments
      cases hnode
    · simp at hsegments
  have hblocked : d.Blocked ["a", "0", "065536"] := by
    refine .inr ⟨.array [.null], "0", ["065536"], ⟨["a"], rfl, rfl⟩, ?_⟩
    exact .opened (.inl rfl) (.inr rfl) List.mem_cons_self (by decide) (by decide)
  obtain ⟨-, -, hzeros⟩ := set_fault_iff d "a.0.2" (.scalar (.string "v"))
  obtain ⟨hiff, -, -⟩ := set_fault_iff d "a.0.065536" .null
  exact ⟨hrespelled, hzeros "a.000.02" hrespelled, hblocked, hiff.mpr hblocked⟩

end Document
end DocExport
