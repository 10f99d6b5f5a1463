import DocExport.Proofs.Copy

/-! When copies fit into one fresh document. Paths that lead to one node have to agree on what it
is: a value, an array or an object. Copies that fit all go through and stay readable, and whatever
else the document then holds is null; copies of scalars that stay readable fit. -/
namespace DocExport

/-- Copies below one slot that one document can take. Either all of them end there, and the last
one writes what every one wants; or none ends there, the first one decides between array and
object, all others go on in that container, and they fit below each of its slots. -/
inductive Copy.Fits : List Copy → Prop where
  | nothing : Fits []
  | value {copies : List Copy} {last : Copy} : copies.getLast? = some last →
    (∀ copy ∈ copies, copy.segments = [] ∧ copy.wanted = last.written) → Fits copies
  | container {copies : List Copy} {first : Copy} {segment : String} {rest : List String} :
    copies.head? = some first → first.segments = segment :: rest →
    Enter (.opening segment) copies → (∀ slot, Fits (branch (.opening segment) slot copies)) →
    Fits copies

theorem Copy.mem_branch {kind : Kind} {slot : Slot} {copies : List Copy} {copy : Copy} :
    copy ∈ branch kind slot copies ↔ ∃ segment, kind.slot? segment = some slot ∧ copy.under segment ∈ copies := by
  rw [branch, List.mem_filterMap]
  constructor
  · rintro ⟨⟨segments, written, wanted⟩, hmem, hbelow⟩
    cases segments with
    | nil => simp [below?] at hbelow
    | cons segment rest =>
      simp only [below?, Option.ite_none_right_eq_some, Option.some.injEq] at hbelow
      obtain ⟨hslot, rfl⟩ := hbelow
      exact ⟨segment, hslot, hmem⟩
  · rintro ⟨segment, hslot, hmem⟩
    exact ⟨_, hmem, by simp [below?, under, hslot]⟩

theorem Copy.exists_length_lt (copies : List Copy) : ∃ n, ∀ copy ∈ copies, copy.segments.length < n := by
  induction copies with
  | nil => exact ⟨0, fun _ hmem => absurd hmem List.not_mem_nil⟩
  | cons copy copies ih =>
    obtain ⟨n, hn⟩ := ih
    refine ⟨max n (copy.segments.length + 1), fun other hmem => ?_⟩
    rcases List.mem_cons.mp hmem with rfl | hmem
    · exact Nat.lt_of_lt_of_le (Nat.lt_succ_self _) (Nat.le_max_right ..)
    · exact Nat.lt_of_lt_of_le (hn other hmem) (Nat.le_max_left ..)

namespace Document
variable {d e : Document} {copy : Copy} {copies : List Copy} {slot : Slot} {segment : String}
  {rest segments : List String} {trailingDot : Bool}

/-- The node that slots lead to. -/
def node? : Document → List Slot → Option Document
  | d, [] => some d
  | d, slot :: slots => (d.content? slot).bind (node? · slots)

/-- The slots that a path names in a document. -/
def position? : Document → List String → Option (List Slot)
  | _, [] => some []
  | d, segment :: rest =>
    (d.kind.slot? segment).bind fun slot => (position? (d.content slot) rest).map (slot :: ·)

/-- A document in which every copy is read as wanted. A scalar outside of all the copies is null. -/
structure Shows (e : Document) (copies : List Copy) : Prop where
  read : ∀ copy ∈ copies, ∀ trailingDot, follow trailingDot copy.segments e = .ok (some copy.wanted)
  outside : ∀ slots s, e.node? slots = some (.scalar s) →
    s = .null ∨ ∃ copy ∈ copies, ∃ place, e.position? copy.segments = some place ∧ place <+: slots

/-- Reading into a filled container goes on in the slot of the copy. -/
theorem follow_of_mem_branch (h : Filled copies d e) (hslot : d.kind.slot? segment = some slot)
    (hmem : copy ∈ Copy.branch d.kind slot copies) :
    follow trailingDot (segment :: segments) e = follow trailingDot segments (e.content slot) := by
  obtain ⟨child, hchild⟩ := Option.isSome_iff_exists.mp (h.present slot (.inr (List.ne_nil_of_mem hmem)))
  rw [follow_cons (h.kind ▸ hslot), content, hchild, Option.getD_some]

/-- A container shows its copies if its slots do. -/
theorem Filled.shows (hd : d.kind = .array ∨ d.kind = .object) (henter : Copy.Enter d.kind copies)
    (h : Filled copies d e) (hslots : ∀ slot, Shows (e.content slot) (Copy.branch d.kind slot copies)) :
    Shows e copies where
  read := by
    intro copy hmem trailingDot
    obtain ⟨segment, rest, slot, hs, hslot⟩ := henter copy hmem
    have hbranch : { copy with segments := rest } ∈ Copy.branch d.kind slot copies :=
      Copy.mem_branch.mpr ⟨segment, hslot, by rw [Copy.under, ← hs]; exact hmem⟩
    rw [hs, follow_of_mem_branch h hslot hbranch]
    exact (hslots slot).read _ hbranch trailingDot
  outside := by
    intro slots s hnode
    cases slots with
    | nil =>
      cases hnode
      rw [← h.kind] at hd
      cases s <;> simp [Document.kind] at hd
    | cons slot slots =>
      obtain ⟨child, hchild, hnode⟩ := Option.bind_eq_some_iff.mp hnode
      have hc : e.content slot = child := by rw [Document.content, hchild, Option.getD_some]
      refine ((hslots slot).outside slots s (hc ▸ hnode)).imp_right ?_
      rintro ⟨copy, hmem, place, hplace, hprefix⟩
      obtain ⟨segment, hslot, hcopy⟩ := Copy.mem_branch.mp hmem
      refine ⟨_, hcopy, slot :: place, ?_, (List.prefix_cons_inj slot).mpr hprefix⟩
      rw [Copy.under, position?, h.kind, hslot, Option.bind_some, hplace, Option.map_some]

theorem kind_opening (segment : String) :
    Kind.opening segment = .array ∨ Kind.opening segment = .object := by
  unfold Kind.opening
  split <;> simp

private theorem kind_ne_null (h : d.kind = .array ∨ d.kind = .object) : d.kind ≠ .null := by
  rcases h with h | h <;> simp [h]

/-- Copies go through in an empty container if they do in its slots. -/
theorem exists_shows_of_slots (hd : d.kind = .array ∨ d.kind = .object)
    (hempty : ∀ slot, d.content slot = .null) (henter : Copy.Enter d.kind copies)
    (hslots : ∀ slot, ∃ child, fillAll (Copy.branch d.kind slot copies) .null = some child ∧
      Shows child (Copy.branch d.kind slot copies)) :
    ∃ e, fillAll copies d = some e ∧ Shows e copies := by
  obtain ⟨e, he, hfilled⟩ := exists_filled (kind_ne_null hd) henter (fun slot => by
    obtain ⟨child, hchild, -⟩ := hslots slot
    exact ⟨child, hempty slot ▸ hchild⟩)
  refine ⟨e, he, hfilled.shows hd henter fun slot => ?_⟩
  obtain ⟨child, hchild, hshows⟩ := hslots slot
  have hcontent := hfilled.content slot
  rw [hempty, hchild] at hcontent
  exact Option.some.inj hcontent ▸ hshows

theorem fillAll_null {first : Copy} (hfirst : copies.head? = some first)
    (hs : first.segments = segment :: rest) :
    fillAll copies .null = fillAll copies (vivify (segment :: rest) .null) := by
  obtain ⟨more, rfl⟩ := List.head?_eq_some_iff.mp hfirst
  rw [fillAll_cons, fillAll_cons, hs, ← fill_null]

/-- Copies that fit all go through, and every value is read where it was wanted. -/
theorem exists_shows_of_fits (h : Copy.Fits copies) : ∃ e, fillAll copies .null = some e ∧ Shows e copies := by
  induction h with
  | nothing =>
    refine ⟨.null, rfl, fun _ hmem => absurd hmem List.not_mem_nil, ?_⟩
    intro slots s hnode
    cases slots with
    | nil => exact .inl (by cases hnode; rfl)
    | cons slot slots => simp [node?, content?] at hnode
  | @value copies last hlast hcopies =>
    refine ⟨last.written, ?_, ?_, ?_⟩
    · rw [fillAll_of_segments_eq_nil (fun c hc => (hcopies c hc).1), hlast]
      rfl
    · intro copy hmem trailingDot
      rw [(hcopies copy hmem).1, (hcopies copy hmem).2]
      rfl
    · intro slots s _
      have hmem := List.mem_of_getLast? hlast
      exact .inr ⟨last, hmem, [], by rw [(hcopies last hmem).1]; rfl, List.nil_prefix⟩
  | @container copies first segment rest hfirst hs henter _ ih =>
    rw [fillAll_null hfirst hs]
    have hk := kind_vivify_null segment rest
    exact exists_shows_of_slots (hk ▸ kind_opening segment) (content_vivify_null segment rest)
      (hk ▸ henter) (hk ▸ ih)

/-- A path that ends at a node and one that goes on cannot both lead to scalars. -/
private theorem segments_eq_nil_of_read {first other : Copy} {s t : Scalar}
    (hfirst : follow false first.segments e = .ok (some (.scalar s)))
    (hother : follow false other.segments e = .ok (some (.scalar t))) (h : first.segments = []) :
    other.segments = [] := by
  rw [h] at hfirst
  cases hfirst
  cases hsegments : other.segments with
  | nil => rfl
  | cons segment rest =>
    rw [hsegments] at hother
    cases hother

private theorem fits_of_segments_eq_nil (hne : copies ≠ []) (hnil : ∀ copy ∈ copies, copy.segments = [])
    (he : fillAll copies .null = some e)
    (hread : ∀ copy ∈ copies, follow false copy.segments e = .ok (some copy.wanted)) : Copy.Fits copies := by
  have hlast := List.getLast?_eq_some_getLast hne
  rw [fillAll_of_segments_eq_nil hnil, hlast] at he
  refine .value hlast (fun copy hmem => ⟨hnil copy hmem, ?_⟩)
  have hr := hread copy hmem
  rw [hnil copy hmem, ← Option.some.inj he, follow] at hr
  injection hr with hr
  exact (Option.some.inj hr).symm

/-- Copies of scalars into one document that are all read as wanted. -/
structure Recovers (copies : List Copy) (d e : Document) : Prop where
  filled : fillAll copies d = some e
  read : ∀ copy ∈ copies, follow false copy.segments e = .ok (some copy.wanted)
  scalar : ∀ copy ∈ copies, ∃ s, copy.wanted = .scalar s

/-- Recovery in an empty container is recovery in its slots. -/
theorem Recovers.branch (hd : d.kind = .array ∨ d.kind = .object) (hempty : ∀ slot, d.content slot = .null)
    (hne : ∀ copy ∈ copies, copy.segments ≠ []) (h : Recovers copies d e) :
    Copy.Enter d.kind copies ∧ ∀ slot, Recovers (Copy.branch d.kind slot copies) .null (e.content slot) := by
  obtain ⟨henter, hfilled⟩ := filled_of_fillAll (kind_ne_null hd) hne h.filled
  refine ⟨henter, fun slot => ⟨hempty slot ▸ hfilled.content slot, fun copy hmem => ?_, fun copy hmem => ?_⟩⟩
  all_goals obtain ⟨segment, hsegment, hcopy⟩ := Copy.mem_branch.mp hmem
  · exact (follow_of_mem_branch hfilled hsegment hmem).symm.trans (h.read _ hcopy)
  · exact h.scalar (copy.under segment) hcopy

private theorem fits_of_recovers_of_lt (n : Nat) (hlen : ∀ copy ∈ copies, copy.segments.length < n)
    (h : Recovers copies .null e) : Copy.Fits copies := by
  induction n generalizing copies e with
  | zero =>
    rw [List.eq_nil_iff_forall_not_mem.mpr fun copy hmem => Nat.not_lt_zero _ (hlen copy hmem)]
    exact .nothing
  | succ n ih =>
    cases copies with
    | nil => exact .nothing
    | cons first more =>
      have hends (one other) (hone : one ∈ first :: more) (hother : other ∈ first :: more)
          (hnil : one.segments = []) : other.segments = [] := by
        obtain ⟨s, hs⟩ := h.scalar one hone
        obtain ⟨t, ht⟩ := h.scalar other hother
        exact segments_eq_nil_of_read (hs ▸ h.read one hone) (ht ▸ h.read other hother) hnil
      cases hs : first.segments with
      | nil =>
        exact fits_of_segments_eq_nil (List.cons_ne_nil first more)
          (fun copy hmem => hends first copy List.mem_cons_self hmem hs) h.filled h.read
      | cons segment rest =>
        have hne (copy) (hmem : copy ∈ first :: more) : copy.segments ≠ [] := by
          intro hnil
          simp [hends copy first hmem List.mem_cons_self hnil] at hs
        have hk := kind_vivify_null segment rest
        have hnull : fillAll (first :: more) .null = fillAll (first :: more) (vivify (segment :: rest) .null) :=
          fillAll_null rfl hs
        have hopen : Recovers (first :: more) (vivify (segment :: rest) .null) e :=
          ⟨hnull ▸ h.filled, h.read, h.scalar⟩
        obtain ⟨henter, hslots⟩ := hopen.branch (hk ▸ kind_opening segment) (content_vivify_null segment rest) hne
        rw [hk] at henter hslots
        refine .container rfl hs henter fun slot => ih (fun copy hmem => ?_) (hslots slot)
        obtain ⟨segment', -, hcopy⟩ := Copy.mem_branch.mp hmem
        exact Nat.lt_of_succ_lt_succ (hlen _ hcopy)

/-- Copies of scalars that go through and are read as wanted fit. -/
theorem fits_of_recovers (h : Recovers copies .null e) : Copy.Fits copies := by
  obtain ⟨n, hn⟩ := Copy.exists_length_lt copies
  exact fits_of_recovers_of_lt n hn h

theorem content_fresh (slot : Slot) : (object []).content slot = .null := by
  cases slot <;> rfl

/-- Copies into a fresh object go through if they fit below each of its keys. -/
theorem exists_shows_object (hne : ∀ copy ∈ copies, copy.segments ≠ [])
    (h : ∀ slot, Copy.Fits (Copy.branch .object slot copies)) :
    ∃ e, fillAll copies (.object []) = some e ∧ Shows e copies := by
  refine exists_shows_of_slots (.inr rfl) content_fresh ?_ fun slot => exists_shows_of_fits (h slot)
  intro copy hmem
  obtain ⟨segment, rest, hs⟩ := List.exists_cons_of_ne_nil (hne copy hmem)
  exact ⟨segment, rest, .key segment, hs, rfl⟩

/-- Copies of scalars into a fresh object go through and are read as wanted exactly if they fit
below each of its keys. -/
theorem recovers_object_iff (hne : ∀ copy ∈ copies, copy.segments ≠ [])
    (hscalar : ∀ copy ∈ copies, ∃ s, copy.wanted = .scalar s) :
    (∃ e, Recovers copies (.object []) e) ↔ ∀ slot, Copy.Fits (Copy.branch .object slot copies) := by
  constructor
  · rintro ⟨e, he⟩ slot
    exact fits_of_recovers ((he.branch (.inr rfl) content_fresh hne).2 slot)
  · intro h
    obtain ⟨e, he, hshows⟩ := exists_shows_object hne h
    exact ⟨e, he, fun copy hmem => hshows.read copy hmem false, hscalar⟩

end Document
end DocExport
