import DocExport.Document.Selection
import DocExport.Proofs.Fit
import DocExport.Proofs.Outcomes
import DocExport.Proofs.Path

/-! Documents restricted to some of their paths. A restriction is a list of copies into a fresh
object; it succeeds and shows the value of every path if the paths are separate: they part at a
position of both, below the root towards different keys or different items of one array. -/
namespace DocExport

namespace Path

/-- Where two paths first differ, and the segments that they go on with there. -/
structure Fork where
  position : Nat
  left : String
  right : String
  deriving DecidableEq, Repr

/-- No fork if one of the paths continues the other. -/
def fork? : List String → List String → Option Fork
  | x :: a, y :: b =>
    if x = y then (fork? a b).map fun fork => { fork with position := fork.position + 1 }
    else some ⟨0, x, y⟩
  | _, _ => none

/-- Segments for one kind of container that name different slots of it. -/
def Alike (x y : String) : Prop :=
  ¬ isIndex x ∧ ¬ isIndex y ∨ isIndex x ∧ isIndex y ∧ indexValue x ≠ indexValue y

instance (x y : String) : Decidable (Alike x y) := inferInstanceAs (Decidable (_ ∨ _))

/-- Paths that share no node at their ends and, from a position on, agree on the containers in
between. -/
structure Separate (start : Nat) (paths : List (List String)) : Prop where
  part : ∀ a ∈ paths, ∀ b ∈ paths, a = b ∨ (fork? a b).isSome
  alike : ∀ a ∈ paths, ∀ b ∈ paths, ∀ fork ∈ fork? a b, start ≤ fork.position → Alike fork.left fork.right
  bounded : ∀ a ∈ paths, ∀ segment ∈ a.drop start, isIndex segment → indexValue segment ≤ Document.indexLimit

instance (start : Nat) (paths : List (List String)) : Decidable (Separate start paths) :=
  decidable_of_iff (_ ∧ _ ∧ _) ⟨fun h => ⟨h.1, h.2.1, h.2.2⟩, fun h => ⟨h.part, h.alike, h.bounded⟩⟩

theorem fork?_cons_self (x : String) (a b : List String) :
    fork? (x :: a) (x :: b) = (fork? a b).map fun fork => { fork with position := fork.position + 1 } := by
  simp [fork?]

theorem fork?_cons_of_ne {x y : String} (h : x ≠ y) (a b : List String) :
    fork? (x :: a) (y :: b) = some ⟨0, x, y⟩ := by
  simp [fork?, h]

/-- Paths that start with the same segment are separate behind it. -/
theorem Separate.tail {start : Nat} {paths tails : List (List String)} (h : Separate start paths)
    (hstart : start ≤ 1) (segment : String) (htails : ∀ a ∈ tails, segment :: a ∈ paths) : Separate 0 tails where
  part := by
    intro a ha b hb
    refine (h.part _ (htails a ha) _ (htails b hb)).imp (fun heq => (List.cons.inj heq).2) fun hfork => ?_
    rwa [fork?_cons_self, Option.isSome_map] at hfork
  alike := by
    intro a ha b hb fork hfork _
    refine h.alike _ (htails a ha) _ (htails b hb) { fork with position := fork.position + 1 } ?_ (by simp; omega)
    rw [fork?_cons_self, Option.mem_def.mp hfork]
    rfl
  bounded := by
    intro a ha s hs
    refine h.bounded _ (htails a ha) s ?_
    obtain rfl | rfl : start = 0 ∨ start = 1 := by omega
    · exact List.mem_cons_of_mem _ hs
    · exact hs

end Path

open DocExport.Path

/-- Two segments for one slot are equal, or spell the same index. -/
theorem Kind.eq_or_of_slot? {kind : Kind} {slot : Slot} {x y : String} (hx : kind.slot? x = some slot)
    (hy : kind.slot? y = some slot) :
    x = y ∨ kind = .array ∧ isIndex x ∧ isIndex y ∧ indexValue x = indexValue y := by
  cases kind <;> simp only [slot?, Option.ite_none_right_eq_some, Option.some.injEq, reduceCtorEq] at hx hy
  · obtain ⟨⟨hix, -⟩, rfl⟩ := hx
    obtain ⟨⟨hiy, -⟩, hv⟩ := hy
    exact .inr ⟨rfl, hix, hiy, (Slot.item.inj hv).symm⟩
  · exact .inl (Slot.key.inj (hx.trans hy.symm))

namespace Document
variable {d e : Document} {copies : List Copy} {keys : List String}

theorem mem_segments {copy : Copy} (h : copy ∈ copies) : copy.segments ∈ copies.map (·.segments) :=
  List.mem_map_of_mem h

/-- Below the root, separate paths that go into one slot go there by the same segment. -/
private theorem branch_head_eq {kind : Kind} {slot : Slot} {x y : String} {a b : List String}
    {paths : List (List String)} (hsep : Separate 0 paths) (ha : x :: a ∈ paths) (hb : y :: b ∈ paths)
    (hx : kind.slot? x = some slot) (hy : kind.slot? y = some slot) : x = y := by
  refine Decidable.byContradiction fun hne => ?_
  have halike := hsep.alike _ ha _ hb ⟨0, x, y⟩ (fork?_cons_of_ne hne a b) (Nat.le_refl 0)
  rcases Kind.eq_or_of_slot? hx hy with h | ⟨-, hix, hiy, hv⟩
  · exact hne h
  · rcases halike with h | h
    · exact h.1 hix
    · exact h.2.2 hv

private theorem branch_separate {start : Nat} {kind : Kind} (hsep : Separate start (copies.map (·.segments)))
    (hstart : start ≤ 1) (hkind : start = 0 ∨ kind = .object) (slot : Slot) :
    Separate 0 ((Copy.branch kind slot copies).map (·.segments)) := by
  cases hb : Copy.branch kind slot copies with
  | nil => exact ⟨by simp, by simp, by simp⟩
  | cons first more =>
    have hfirst : first ∈ Copy.branch kind slot copies := hb ▸ List.mem_cons_self
    obtain ⟨segment, hsegment, hcopy⟩ := Copy.mem_branch.mp hfirst
    rw [← hb]
    refine hsep.tail hstart segment fun a ha => ?_
    obtain ⟨other, hother, rfl⟩ := List.mem_map.mp ha
    obtain ⟨segment', hsegment', hcopy'⟩ := Copy.mem_branch.mp hother
    have hmem := mem_segments hcopy'
    have heq : segment = segment' := by
      rcases hkind with rfl | rfl
      · exact branch_head_eq hsep (mem_segments hcopy) hmem hsegment hsegment'
      · exact Slot.key.inj (Option.some.inj (hsegment.trans hsegment'.symm))
    exact heq ▸ hmem

/-- A null slot opened for one segment takes another of the same form. -/
private theorem exists_slot_opening {x y : String} (h : isIndex x = isIndex y)
    (hy : isIndex y → indexValue y ≤ indexLimit) : ∃ slot, (Kind.opening x).slot? y = some slot := by
  have hopening : Kind.opening x = Kind.opening y := by rw [Kind.opening, Kind.opening, h]
  rw [hopening]
  exact Option.isSome_iff_exists.mp ((Kind.isSome_slot?_opening y).mpr hy)

/-- No path ends where a separate one goes on. -/
private theorem segments_eq_nil_of_separate {first other : Copy} (hsep : Separate 0 (copies.map (·.segments)))
    (hfirst : first ∈ copies) (hother : other ∈ copies) (h : first.segments = []) : other.segments = [] := by
  rcases hsep.part _ (mem_segments hfirst) _ (mem_segments hother) with heq | hfork
  · rw [← heq, h]
  · rw [h] at hfork
    simp [fork?] at hfork

private theorem enter_of_separate {first : Copy} {segment : String} {rest : List String}
    (hsep : Separate 0 (copies.map (·.segments))) (hfirst : first ∈ copies)
    (hs : first.segments = segment :: rest) : Copy.Enter (.opening segment) copies := by
  intro other hother
  cases hsegments : other.segments with
  | nil => simp [segments_eq_nil_of_separate hsep hother hfirst hsegments] at hs
  | cons segment' rest' =>
    have hmem := hs ▸ mem_segments hfirst
    have hmem' := hsegments ▸ mem_segments hother
    have hform : isIndex segment = isIndex segment' := by
      by_cases heq : segment = segment'
      · rw [heq]
      · have halike := hsep.alike _ hmem _ hmem' _ (fork?_cons_of_ne heq rest rest') (Nat.le_refl 0)
        rcases halike with h | h
        · exact Bool.eq_iff_iff.mpr (iff_of_false h.1 h.2)
        · rw [h.1, h.2.1]
    obtain ⟨slot, hslot⟩ := exists_slot_opening hform (hsep.bounded _ hmem' segment' List.mem_cons_self)
    exact ⟨segment', rest', slot, rfl, hslot⟩

/-- Copies to separate paths fit, if copies to the same path are of the same value. -/
theorem fits_of_separate (hsep : Separate 0 (copies.map (·.segments)))
    (hsame : ∀ c ∈ copies, ∀ c' ∈ copies, c.segments = c'.segments → c.wanted = c'.written) : Copy.Fits copies := by
  obtain ⟨n, hlen⟩ := Copy.exists_length_lt copies
  induction n generalizing copies with
  | zero =>
    rw [List.eq_nil_iff_forall_not_mem.mpr fun copy hmem => Nat.not_lt_zero _ (hlen copy hmem)]
    exact .nothing
  | succ n ih =>
    cases hcopies : copies.head? with
    | none => exact List.head?_eq_none_iff.mp hcopies ▸ .nothing
    | some first =>
      have hfirst := List.mem_of_head? hcopies
      cases hs : first.segments with
      | nil =>
        have hne := List.ne_nil_of_mem hfirst
        refine .value (List.getLast?_eq_some_getLast hne) fun copy hmem => ?_
        have hnil := segments_eq_nil_of_separate hsep hfirst hmem hs
        have hlast := segments_eq_nil_of_separate hsep hfirst (List.getLast_mem hne) hs
        exact ⟨hnil, hsame copy hmem _ (List.getLast_mem hne) (hnil.trans hlast.symm)⟩
      | cons segment rest =>
        refine .container hcopies hs (enter_of_separate hsep hfirst hs) fun slot => ?_
        refine ih (branch_separate hsep (Nat.zero_le 1) (.inl rfl) slot) ?_ ?_
        · intro c hc c' hc' heq
          obtain ⟨x, hx, hcopy⟩ := Copy.mem_branch.mp hc
          obtain ⟨y, hy, hcopy'⟩ := Copy.mem_branch.mp hc'
          have hxy := branch_head_eq hsep (mem_segments hcopy) (mem_segments hcopy') hx hy
          exact hsame (c.under x) hcopy (c'.under y) hcopy' (by rw [Copy.under, Copy.under, hxy, heq])
        · intro copy hmem
          obtain ⟨x, -, hcopy⟩ := Copy.mem_branch.mp hmem
          exact Nat.lt_of_succ_lt_succ (hlen _ hcopy)

/-- The value at a path, null where there is none. -/
def valueAt (d : Document) (key : String) : Document :=
  match d.get (.ofText key) with
  | .ok value => value.getD .null
  | .error _ => .null

/-- The copy of a key into a restriction. -/
def copyOf (d : Document) (key : String) (wanted : Document) : Copy :=
  ⟨(Path.ofText key).segments, d.valueAt key, wanted⟩

private theorem kind_fill {value target : Document} (htarget : target.kind ≠ .null) (key : String)
    (h : fill value (ofText key).segments target = some e) : e.kind = target.kind := by
  obtain ⟨segment, rest, hs⟩ := List.exists_cons_of_ne_nil (segments_ne_nil key)
  rw [hs, fill_cons htarget] at h
  obtain ⟨slot, -, h⟩ := Option.bind_eq_some_iff.mp h
  obtain ⟨child, -, rfl⟩ := Option.map_eq_some_iff.mp h
  exact kind_put ..

private theorem copyPath_eq_ok_iff {target : Document} (htarget : target.kind ≠ .null) (key : String) :
    d.copyPath target (.ofText key) = .ok e ↔
      (∃ value, d.get (.ofText key) = .ok value) ∧
        fill (d.valueAt key) (ofText key).segments target = some e := by
  unfold copyPath valueAt
  cases d.get (.ofText key) with
  | error fault => simp
  | ok value =>
    rw [fill, vivify_of_kind_ne_null htarget, ← place_done?_trailingDot (ofText key).trailingDot]
    simp only [Edit.done?, set]
    split <;> simp_all

/-- A restriction is its copies into a fresh object, if all of its paths can be looked up. -/
theorem restrict_eq_ok_iff {pairs : List (String × Document)} (hne : pairs ≠ []) :
    restrict (pairs.map (·.1)) d = .ok e ↔
      (∀ pair ∈ pairs, ∃ value, d.get (.ofText pair.1) = .ok value) ∧
        fillAll (pairs.map fun pair => d.copyOf pair.1 pair.2) (.object []) = some e := by
  have hfold (target : Document) (htarget : target.kind ≠ .null) :
      ((pairs.map (·.1)).map Path.ofText).foldlM (d.copyPath ·) target = .ok e ↔
        (∀ pair ∈ pairs, ∃ value, d.get (.ofText pair.1) = .ok value) ∧
          fillAll (pairs.map fun pair => d.copyOf pair.1 pair.2) target = some e := by
    clear hne
    induction pairs generalizing target with
    | nil => simp [fillAll, pure, Except.pure]
    | cons pair pairs ih =>
      simp only [List.map_cons, List.foldlM_cons, bind_eq_ok_iff, List.forall_mem_cons, fillAll_cons,
        copyPath_eq_ok_iff htarget, Option.bind_eq_some_iff]
      constructor
      · rintro ⟨t, ⟨hget, hfill⟩, hrest⟩
        obtain ⟨hgets, hfills⟩ := (ih t (kind_fill htarget _ hfill ▸ htarget)).mp hrest
        exact ⟨⟨hget, hgets⟩, t, hfill, hfills⟩
      · rintro ⟨⟨hget, hgets⟩, t, hfill, hfills⟩
        exact ⟨t, ⟨hget, hfill⟩, (ih t (kind_fill htarget _ hfill ▸ htarget)).mpr ⟨hgets, hfills⟩⟩
  have hkeys : (pairs.map (·.1)).isEmpty = false := by simpa using hne
  rw [restrict, hkeys]
  exact hfold (.object []) (by simp [kind])

theorem restrict_keys_eq_ok_iff (hne : keys ≠ []) :
    restrict keys d = .ok e ↔ (∀ key ∈ keys, ∃ value, d.get (.ofText key) = .ok value) ∧
      fillAll (keys.map fun key => d.copyOf key (d.valueAt key)) (.object []) = some e := by
  have h : restrict ((keys.map fun key => (key, d.valueAt key)).map (·.1)) d = .ok e ↔ _ :=
    restrict_eq_ok_iff (by simpa using hne)
  simpa [Function.comp_def] using h

theorem valueAt_of_get {key : String} {value : Option Document} (h : d.get (.ofText key) = .ok value) :
    d.valueAt key = value.getD .null := by
  rw [valueAt, h]

/-- Spellings of one path lead to one value. -/
private theorem valueAt_eq_of_segments_eq {key other : String} {value : Option Document}
    (h : d.get (.ofText key) = .ok value) (hs : (ofText key).segments = (ofText other).segments) :
    d.valueAt key = d.valueAt other := by
  have ho : d.get (.ofText other) = .ok value := by
    rw [get] at h ⊢
    exact hs ▸ follow_eq_ok_of_trailingDot (ofText other).trailingDot h
  rw [valueAt_of_get h, valueAt_of_get ho]

/-- Copies of the values at separate paths fit below each key of a fresh object. -/
private theorem fits_keys (hget : ∀ key ∈ keys, ∃ value, d.get (.ofText key) = .ok value)
    (hsep : Separate 1 (keys.map pieces)) (slot : Slot) :
    Copy.Fits (Copy.branch .object slot (keys.map fun key => d.copyOf key (d.valueAt key))) := by
  have hpaths : (keys.map fun key => d.copyOf key (d.valueAt key)).map (·.segments) = keys.map pieces := by
    simp [copyOf, pieces_eq_segments]
  rw [← hpaths] at hsep
  refine fits_of_separate (branch_separate hsep (Nat.le_refl 1) (.inr rfl) slot) ?_
  intro c hc c' hc' heq
  obtain ⟨x, hx, hcopy⟩ := Copy.mem_branch.mp hc
  obtain ⟨y, hy, hcopy'⟩ := Copy.mem_branch.mp hc'
  have hxy : x = y := Slot.key.inj (Option.some.inj (hx.trans hy.symm))
  obtain ⟨key, hkey, hunder⟩ := List.mem_map.mp hcopy
  obtain ⟨other, -, hunder'⟩ := List.mem_map.mp hcopy'
  obtain ⟨value, hvalue⟩ := hget key hkey
  have hs : (d.copyOf key (d.valueAt key)).segments = (d.copyOf other (d.valueAt other)).segments := by
    rw [hunder, hunder', Copy.under, Copy.under, hxy, heq]
  calc
    c.wanted = d.valueAt key := (congrArg Copy.wanted hunder).symm
    _ = d.valueAt other := valueAt_eq_of_segments_eq hvalue hs
    _ = c'.written := congrArg Copy.written hunder'

/-- Restricting to separate paths succeeds whatever the document holds there, shows the value of
each path, null where there is none, and fills up with nulls only. A second restriction changes
nothing. -/
theorem restrict_separate (d : Document) (keys : List String) (hne : keys ≠ [])
    (hget : ∀ key ∈ keys, ∃ value, d.get (.ofText key) = .ok value)
    (hsep : Separate 1 (keys.map pieces)) :
    ∃ t, restrict keys d = .ok t ∧
      (∀ key ∈ keys, ∃ value, d.get (.ofText key) = .ok value ∧
        t.get (.ofText key) = .ok (some (value.getD .null))) ∧
      (∀ slots s, t.node? slots = some (.scalar s) →
        (∀ key ∈ keys, ∀ place, t.position? (pieces key) = some place → ¬ place <+: slots) → s = .null) ∧
      restrict keys t = .ok t := by
  obtain ⟨t, ht, hshows⟩ := exists_shows_object (by simp [copyOf, segments_ne_nil]) (fits_keys hget hsep)
  have hread (key) (hkey : key ∈ keys) : t.get (.ofText key) = .ok (some (d.valueAt key)) :=
    hshows.read (d.copyOf key (d.valueAt key)) (List.mem_map_of_mem hkey) _
  refine ⟨t, (restrict_keys_eq_ok_iff hne).mpr ⟨hget, ht⟩, fun key hkey => ?_, fun slots s hnode hout => ?_, ?_⟩
  · obtain ⟨value, hvalue⟩ := hget key hkey
    exact ⟨value, hvalue, valueAt_of_get hvalue ▸ hread key hkey⟩
  · rcases hshows.outside slots s hnode with hnull | ⟨copy, hcopy, place, hplace, hprefix⟩
    · exact hnull
    · obtain ⟨key, hkey, rfl⟩ := List.mem_map.mp hcopy
      exact absurd hprefix (hout key hkey place (by rw [pieces_eq_segments]; exact hplace))
  · have hsame : (keys.map fun key => t.copyOf key (t.valueAt key)) =
        keys.map fun key => d.copyOf key (d.valueAt key) := by
      refine List.map_congr_left fun key hkey => ?_
      rw [copyOf, copyOf, valueAt_of_get (hread key hkey), Option.getD_some]
    exact (restrict_keys_eq_ok_iff hne).mpr ⟨fun key hkey => ⟨_, hread key hkey⟩, hsame ▸ ht⟩

/-- Interleaved keys that overwrite padding, name missing nodes and spell one path twice. -/
theorem restrict_separate_interleaved :
    let d := object [("a", object [("b", .scalar (.bool true))]),
      ("c", .array [.scalar (.string "x"), .null, .array []]), ("n", object [("0", .null), ("1", .null)])]
    let keys := ["c.2", "x.3.y", "a.b", "n.1", "c.0", "x.3.z", "a.b."]
    (keys ≠ [] ∧ (∀ key ∈ keys, ∃ value, d.get (.ofText key) = .ok value) ∧ Separate 1 (keys.map pieces)) ∧
      ∃ t, restrict keys d = .ok t ∧ t.get (.ofText "c.0") = .ok (some (.scalar (.string "x"))) ∧
        t.get (.ofText "x.3.y") = .ok (some .null) ∧ restrict keys t = .ok t := by
  intro d keys
  have hget : ∀ key ∈ keys, ∃ value, d.get (.ofText key) = .ok value := by
    simp only [keys, List.forall_mem_cons]
    exact ⟨⟨_, rfl⟩, ⟨_, rfl⟩, ⟨_, rfl⟩, ⟨_, rfl⟩, ⟨_, rfl⟩, ⟨_, rfl⟩, ⟨_, rfl⟩, by simp⟩
  have hsep : Separate 1 (keys.map pieces) := by
    simp only [keys, List.map_cons, List.map_nil, pieces_eq_segments]
    decide
  obtain ⟨t, ht, hread, -, hagain⟩ := restrict_separate d keys (by decide) hget hsep
  refine ⟨⟨by decide, hget, hsep⟩, t, ht, ?_, ?_, hagain⟩
  · obtain ⟨value, hvalue, hshown⟩ := hread "c.0" (by decide)
    cases hvalue
    exact hshown
  · obtain ⟨value, hvalue, hshown⟩ := hread "x.3.y" (by decide)
    cases hvalue
    exact hshown

end Document
end DocExport
