import DocExport.Document.Envelope
import DocExport.Proofs.Outcomes

/-! Search responses taken apart. However documents are cut into batches and whatever stands around them in the
responses, they come out as they went in; the first response that is no envelope ends the search for them. -/
namespace DocExport.Document
variable {response row : Document} {responses rows docs batch : List Document} {fault : FormatFault} {position : Nat}

/-- A row that brings no document: it is no object, it has nothing under `doc`, or what it has there is no object. -/
inductive Idle : Document → Prop where
  | noObject {row : Document} : row.isObject = false → Idle row
  | nothing {members : List Member} : members.lookup "doc" = none → Idle (.object members)
  | noDocument {members : List Member} {value : Document} :
    members.lookup "doc" = some value → value.isObject = false → Idle (.object members)

/-- The rows bring the documents of a batch one by one, each under `doc`, with any idle rows in between. -/
inductive Carries : List Document → List Document → Prop where
  | nil : Carries [] []
  | document {members inner : List Member} {rows batch : List Document} :
    members.lookup "doc" = some (.object inner) → Carries rows batch →
      Carries (.object members :: rows) (.object inner :: batch)
  | idle {row : Document} {rows batch : List Document} : Idle row → Carries rows batch → Carries (row :: rows) batch

/-- An object with an array under `rows`, whatever else is in it. -/
def HasRows (response : Document) : Prop :=
  ∃ members rows, response = .object members ∧ members.lookup "rows" = some (.array rows)

/-- An envelope around a batch. -/
inductive Encloses : Document → List Document → Prop where
  | rows {members : List Member} {rows batch : List Document} :
    members.lookup "rows" = some (.array rows) → Carries rows batch → Encloses (.object members) batch

theorem Encloses.hasRows (h : Encloses response batch) : response.HasRows := by
  obtain ⟨hrows, -⟩ := h
  exact ⟨_, _, rfl, hrows⟩

theorem hasRows_of_forall₂ {batches : List (List Document)} (h : List.Forall₂ Encloses responses batches) :
    ∀ response ∈ responses, response.HasRows := by
  induction h with
  | nil => exact List.forall_mem_nil _
  | cons hfirst _ ih => exact List.forall_mem_cons.mpr ⟨hfirst.hasRows, ih⟩

theorem rowDocument?_of_idle (h : Idle row) : rowDocument? row = none := by
  cases h with
  | noObject hrow =>
    cases row with
    | object members => cases hrow
    | scalar value => rfl
    | array items => rfl
  | nothing hnone => rw [rowDocument?, member?, hnone, Option.filter_none]
  | noDocument hvalue hother => rw [rowDocument?, member?, hvalue, Option.filter_some_neg (by simp [hother])]

theorem rowDocument?_object {members inner : List Member} (h : members.lookup "doc" = some (.object inner)) :
    rowDocument? (.object members) = some (.object inner) := by
  rw [rowDocument?, member?, h]
  rfl

theorem idle_or_document (row : Document) :
    Idle row ∨ ∃ members inner, row = .object members ∧ members.lookup "doc" = some (.object inner) := by
  cases row with
  | scalar value => exact .inl (.noObject rfl)
  | array items => exact .inl (.noObject rfl)
  | object members =>
    cases hvalue : members.lookup "doc" with
    | none => exact .inl (.nothing hvalue)
    | some value =>
      cases value with
      | scalar value => exact .inl (.noDocument hvalue rfl)
      | array items => exact .inl (.noDocument hvalue rfl)
      | object inner => exact .inr ⟨members, inner, rfl, hvalue⟩

theorem filterMap_rowDocument?_eq_iff : rows.filterMap rowDocument? = batch ↔ Carries rows batch := by
  constructor
  · rintro rfl
    induction rows with
    | nil => exact .nil
    | cons row rows ih =>
      rcases idle_or_document row with hidle | ⟨members, inner, rfl, hdoc⟩
      · rw [List.filterMap_cons_none (rowDocument?_of_idle hidle)]
        exact .idle hidle ih
      · rw [List.filterMap_cons_some (rowDocument?_object hdoc)]
        exact .document hdoc ih
  · intro h
    induction h with
    | nil => rfl
    | document hdoc _ ih => rw [List.filterMap_cons_some (rowDocument?_object hdoc), ih]
    | idle hidle _ ih => rw [List.filterMap_cons_none (rowDocument?_of_idle hidle), ih]

theorem responseDocuments?_eq_some_iff : responseDocuments? response = some batch ↔ Encloses response batch := by
  constructor
  · intro h
    unfold responseDocuments? at h
    split at h
    · rename_i rows hrows
      cases response with
      | scalar value => cases hrows
      | array items => cases hrows
      | object members => exact .rows hrows (filterMap_rowDocument?_eq_iff.mp (Option.some.inj h))
    · cases h
  · rintro ⟨hrows, hcarries⟩
    simp only [responseDocuments?, member?, hrows, filterMap_rowDocument?_eq_iff.mpr hcarries]

theorem responseDocuments?_eq_none_iff : responseDocuments? response = none ↔ ¬ response.HasRows := by
  constructor
  · rintro h ⟨members, rows, rfl, hrows⟩
    simp only [responseDocuments?, member?, hrows, reduceCtorEq] at h
  · intro h
    rw [Option.eq_none_iff_forall_not_mem]
    exact fun batch hbatch => h (responseDocuments?_eq_some_iff.mp hbatch).hasRows

/-- The documents in the rows of a response, which it has to have. -/
def batchAt (response : Document) (position : Nat) : Except FormatFault (List Document) :=
  match response.responseDocuments? with
  | some docs => .ok docs
  | none => .error (.noRows position)

theorem unwrapRows_eq_map (responses : List Document) :
    unwrapRows responses = (responses.zipIdx.mapM fun x : Document × Nat => x.1.batchAt x.2).map List.flatten := by
  rfl

theorem batchAt_eq_ok_iff : response.batchAt position = .ok batch ↔ Encloses response batch := by
  rw [← responseDocuments?_eq_some_iff, batchAt]
  cases responseDocuments? response <;> simp

theorem batchAt_eq_error_iff : response.batchAt position = .error fault ↔ ¬ response.HasRows ∧ fault = .noRows position := by
  rw [← responseDocuments?_eq_none_iff, batchAt]
  cases responseDocuments? response <;> simp [eq_comm]

theorem exists_batchAt (h : response.HasRows) (position : Nat) : ∃ batch, response.batchAt position = .ok batch := by
  cases hbatch : response.batchAt position with
  | ok batch => exact ⟨batch, rfl⟩
  | error fault => exact absurd h (batchAt_eq_error_iff.mp hbatch).1

theorem unwrapRows_eq_ok_iff :
    unwrapRows responses = .ok docs ↔ ∃ batches, List.Forall₂ Encloses responses batches ∧ batches.flatten = docs := by
  have hall (batches : List (List Document)) :
      List.Forall₂ (fun (x : Document × Nat) batch => x.1.batchAt x.2 = .ok batch) responses.zipIdx batches ↔
        List.Forall₂ Encloses responses batches := by
    simp only [batchAt_eq_ok_iff]
    conv_rhs => rw [← List.zipIdx_map_fst 0 responses, List.forall₂_map_left_iff]
  simp only [unwrapRows_eq_map, map_eq_ok_iff, mapM_eq_ok_iff, hall, eq_comm (a := docs)]

/-- The first response without rows, counted from `start`. -/
theorem firstFails_batchAt_iff {start : Nat} :
    FirstFails (fun x : Document × Nat => x.1.batchAt x.2) (responses.zipIdx start) fault ↔
      ∃ before response after, responses = before ++ response :: after ∧ (∀ good ∈ before, good.HasRows) ∧
        ¬ response.HasRows ∧ fault = .noRows (start + before.length) := by
  induction responses generalizing start with
  | nil => exact ⟨nofun, fun ⟨_, _, _, hnil, _⟩ => by simp at hnil⟩
  | cons first responses ih =>
    rw [List.zipIdx_cons]
    constructor
    · intro h
      cases h with
      | here hfails =>
        obtain ⟨hrows, rfl⟩ := batchAt_eq_error_iff.mp hfails
        exact ⟨[], first, responses, rfl, List.forall_mem_nil _, hrows, rfl⟩
      | later hbatch hlater =>
        obtain ⟨before, response, after, rfl, hgood, hrows, rfl⟩ := ih.mp hlater
        refine ⟨first :: before, response, after, rfl, List.forall_mem_cons.mpr ⟨?_, hgood⟩, hrows, ?_⟩
        · exact (batchAt_eq_ok_iff.mp hbatch).hasRows
        · rw [List.length_cons, Nat.add_right_comm, Nat.add_assoc]
    · rintro ⟨before, response, after, hsplit, hgood, hrows, rfl⟩
      cases before with
      | nil =>
        cases hsplit
        exact .here (batchAt_eq_error_iff.mpr ⟨hrows, rfl⟩)
      | cons good before =>
        cases hsplit
        obtain ⟨hfirst, hgood⟩ := List.forall_mem_cons.mp hgood
        obtain ⟨batch, hbatch⟩ := exists_batchAt hfirst start
        refine .later hbatch (ih.mpr ⟨before, response, after, rfl, hgood, hrows, ?_⟩)
        rw [List.length_cons, Nat.add_right_comm, Nat.add_assoc]

theorem unwrapRows_eq_error_iff :
    unwrapRows responses = .error fault ↔
      ∃ before response after, responses = before ++ response :: after ∧ (∀ good ∈ before, good.HasRows) ∧
        ¬ response.HasRows ∧ fault = .noRows before.length := by
  rw [unwrapRows_eq_map, map_eq_error_iff, mapM_eq_error_iff, firstFails_batchAt_iff]
  simp only [Nat.zero_add]

/-- The documents of responses are those of the batches that the responses are envelopes around, all of them and in
order, however they are cut into batches and whatever else is in the envelopes. There are none only if some
response is no envelope, and then the first of these is reported. -/
theorem unwrapRows_batches (responses : List Document) :
    (∀ docs, unwrapRows responses = .ok docs ↔
        ∃ batches, List.Forall₂ Encloses responses batches ∧ batches.flatten = docs) ∧
      ((∃ fault, unwrapRows responses = .error fault) ↔ ∃ response ∈ responses, ¬ response.HasRows) ∧
      (∀ fault, unwrapRows responses = .error fault ↔
        ∃ before response after, responses = before ++ response :: after ∧ (∀ good ∈ before, good.HasRows) ∧
          ¬ response.HasRows ∧ fault = .noRows before.length) ∧
      ∀ position, (Failure.format (.noRows position)).message =
        "Format error: search response " ++ toString position ++ " has no rows array" := by
  refine ⟨fun _ => unwrapRows_eq_ok_iff, ⟨?_, ?_⟩, fun _ => unwrapRows_eq_error_iff, fun _ => rfl⟩
  · rintro ⟨fault, hfault⟩
    obtain ⟨before, response, after, rfl, -, hrows, -⟩ := unwrapRows_eq_error_iff.mp hfault
    exact ⟨response, List.mem_append_right before List.mem_cons_self, hrows⟩
  · rintro ⟨response, hmem, hrows⟩
    cases hresult : unwrapRows responses with
    | error fault => exact ⟨fault, rfl⟩
    | ok docs =>
      obtain ⟨batches, henvelopes, -⟩ := unwrapRows_eq_ok_iff.mp hresult
      exact absurd (hasRows_of_forall₂ henvelopes response hmem) hrows

example :
    unwrapRows [object [("rows", .array [.null, object [("id", .null), ("doc", object [("a", .null)])]])],
      object [("rows", .array [])], object [("rows", .array [object [("doc", .array [])], object [("doc", object [])]])]] =
        .ok [object [("a", .null)], object []] := rfl

end DocExport.Document
