import DocExport.Document.Leaves
import DocExport.Proofs.Outcomes
import Mathlib.Data.List.Nodup

/-! Rows as they are collected. The walk over a container adds its leaves to the row one after the other, in
document order and under their own path texts, and is over at the first wanted leaf whose path is in the row. -/
namespace DocExport

/-- `path` is the first in the list that occurs before it. -/
def FirstRepeated (paths : List String) (path : String) : Prop :=
  ∃ before after, paths = before ++ path :: after ∧ before.Nodup ∧ path ∈ before

theorem FirstRepeated.not_nodup {paths : List String} {path : String} (h : FirstRepeated paths path) :
    ¬ paths.Nodup := by
  obtain ⟨before, after, rfl, -, hmem⟩ := h
  exact fun hnodup => (List.nodup_append.mp hnodup).2.2 path hmem path List.mem_cons_self rfl

private theorem head_eq_of_nodup {before more after after' : List String} {path path' : String}
    (hnodup : (before ++ more).Nodup) (hmem : path ∈ before) (heq : path :: after = more ++ path' :: after') :
    path = path' := by
  cases more with
  | nil => exact (List.cons.inj heq).1
  | cons first more =>
    obtain ⟨rfl, -⟩ := List.cons.inj heq
    exact absurd rfl ((List.nodup_append.mp hnodup).2.2 _ hmem _ List.mem_cons_self)

theorem FirstRepeated.unique {paths : List String} {path path' : String} (h : FirstRepeated paths path)
    (h' : FirstRepeated paths path') : path = path' := by
  obtain ⟨before, after, rfl, hnodup, hmem⟩ := h
  obtain ⟨before', after', heq, hnodup', hmem'⟩ := h'
  rcases List.append_eq_append_iff.mp heq with ⟨more, rfl, hafter⟩ | ⟨more, rfl, hafter⟩
  · exact head_eq_of_nodup hnodup' hmem hafter
  · exact (head_eq_of_nodup hnodup hmem' hafter).symm

namespace Document
open DocExport.Path
variable {allowed : List String} {row wanted found : Row} {leaf : String × Scalar} {d : Document}
  {result : Except FormatFault Row}

theorem scalar_or_container (d : Document) :
    (∃ value, d = .scalar value) ∨ d.kind = .array ∨ d.kind = .object := by
  cases d with
  | scalar value => exact .inl ⟨value, rfl⟩
  | array items => exact .inr (.inl rfl)
  | object members => exact .inr (.inr rfl)

theorem not_container_scalar (value : Scalar) :
    ¬ ((scalar value).kind = .array ∨ (scalar value).kind = .object) := by
  cases value <;> simp [kind]

/-- How collecting leaves ends: with all that are wanted, or with a report of the first path that repeats one
before it. -/
inductive Collects (wanted : Row) : Except FormatFault Row → Prop where
  | row : (wanted.map (·.1)).Nodup → Collects wanted (.ok wanted)
  | repeated {path : String} : FirstRepeated (wanted.map (·.1)) path → Collects wanted (.error (.repeatedPath path))

theorem Collects.eq_ok_iff (h : Collects wanted result) :
    result = .ok row ↔ (wanted.map (·.1)).Nodup ∧ row = wanted := by
  cases h with
  | row hnodup => rw [Except.ok.injEq, and_iff_right hnodup, eq_comm]
  | repeated hfirst => exact ⟨nofun, fun h => absurd h.1 hfirst.not_nodup⟩

theorem Collects.eq_error_iff {fault : FormatFault} (h : Collects wanted result) :
    result = .error fault ↔ ∃ path, FirstRepeated (wanted.map (·.1)) path ∧ fault = .repeatedPath path := by
  cases h with
  | row hnodup => exact ⟨nofun, fun ⟨_, hfirst, _⟩ => absurd hnodup hfirst.not_nodup⟩
  | repeated hfirst =>
    rw [Except.error.injEq]
    constructor
    · rintro rfl
      exact ⟨_, hfirst, rfl⟩
    · rintro ⟨path, hpath, rfl⟩
      rw [hfirst.unique hpath]

theorem addLeaf_of_not_wants (h : wants allowed leaf.1 = false) : addLeaf allowed row leaf = .ok row := by
  rw [addLeaf, h, if_neg Bool.false_ne_true]

theorem addLeaf_of_mem (h : wants allowed leaf.1 = true) (hmem : leaf.1 ∈ row.map (·.1)) :
    addLeaf allowed row leaf = .error (.repeatedPath leaf.1) := by
  rw [addLeaf, if_pos h, if_pos (List.contains_iff_mem.mpr hmem)]

theorem addLeaf_of_not_mem (h : wants allowed leaf.1 = true) (hmem : leaf.1 ∉ row.map (·.1)) :
    addLeaf allowed row leaf = .ok (row ++ [leaf]) := by
  rw [addLeaf, if_pos h, if_neg (mt List.contains_iff_mem.mp hmem)]

/-- A run over leaves, from a row whose paths are different. -/
theorem collects_foldlM (hrow : (row.map (·.1)).Nodup) :
    Collects (row ++ found.filter fun leaf => wants allowed leaf.1) (found.foldlM (addLeaf allowed) row) := by
  induction found generalizing row with
  | nil =>
    rw [List.filter_nil, List.append_nil]
    exact .row hrow
  | cons leaf found ih =>
    rw [List.foldlM_cons]
    cases hwants : wants allowed leaf.1 with
    | false =>
      rw [addLeaf_of_not_wants hwants, List.filter_cons, if_neg (by simp [hwants])]
      exact ih hrow
    | true =>
      rw [List.filter_cons, if_pos hwants]
      by_cases hmem : leaf.1 ∈ row.map (·.1)
      · rw [addLeaf_of_mem hwants hmem]
        exact .repeated ⟨row.map (·.1), _, by rw [List.map_append, List.map_cons], hrow, hmem⟩
      · have hnext : ((row ++ [leaf]).map (·.1)).Nodup := by
          rw [List.map_append, List.map_singleton, ← List.concat_eq_append]
          exact hrow.concat hmem
        rw [addLeaf_of_not_mem hwants hmem, List.append_cons]
        exact ih hnext

/-- A leaf under its path text, when the node that its trail starts from is at `base`. -/
def leafBelow (base : Option String) (leaf : Trail × Scalar) : String × Scalar :=
  (join (base.toList ++ leaf.1), leaf.2)

theorem leafBelow_nil (path : String) (value : Scalar) : leafBelow (some path) ([], value) = (path, value) := by
  simp [leafBelow, join]

theorem leafBelow_cons (base : Option String) (segment : String) (trail : Trail) (value : Scalar) :
    leafBelow base (segment :: trail, value) = leafBelow (some (childPath base segment)) (trail, value) := by
  cases base with
  | none => rfl
  | some path =>
    refine Prod.ext (String.toList_inj.mp ?_) rfl
    cases trail <;> simp [leafBelow, join, childPath]

/-- The leaves of a node that begin with those of a child. -/
private theorem foldlM_child (base : Option String) (segment : String) (row : Row)
    (below rest : List (Trail × Scalar)) :
    ((below.map (fun leaf => (segment :: leaf.1, leaf.2)) ++ rest).map (leafBelow base)).foldlM (addLeaf allowed) row =
      (below.map (leafBelow (some (childPath base segment)))).foldlM (addLeaf allowed) row >>= fun row =>
        (rest.map (leafBelow base)).foldlM (addLeaf allowed) row := by
  rw [List.map_append, List.foldlM_append, List.map_map]
  simp only [Function.comp_def, leafBelow_cons]

mutual

/-- Below the root, the walk over a node is a run over its leaves. -/
theorem collect_eq_foldlM (path : String) (row : Row) (d : Document) :
    collect allowed (some path) row d = (d.leaves.map (leafBelow (some path))).foldlM (addLeaf allowed) row := by
  match d with
  | .scalar value =>
    rw [collect, leaves, List.map_singleton, leafBelow_nil]
    simp only [List.foldlM_cons, List.foldlM_nil, bind_pure]
  | .array items =>
    rw [collect, leaves]
    exact collectItems_eq_foldlM (some path) 0 row items
  | .object members =>
    rw [collect, leaves]
    exact collectMembers_eq_foldlM (some path) row members

theorem collectItems_eq_foldlM (base : Option String) (position : Nat) (row : Row) (items : List Document) :
    collectItems allowed base position row items =
      ((itemLeaves position items).map (leafBelow base)).foldlM (addLeaf allowed) row := by
  match items with
  | [] => rfl
  | item :: items =>
    rw [collectItems, itemLeaves, foldlM_child, collect_eq_foldlM]
    exact bind_congr fun row => collectItems_eq_foldlM base (position + 1) row items

theorem collectMembers_eq_foldlM (base : Option String) (row : Row) (members : List Member) :
    collectMembers allowed base row members =
      ((memberLeaves members).map (leafBelow base)).foldlM (addLeaf allowed) row := by
  match members with
  | [] => rfl
  | (key, value) :: members =>
    rw [collectMembers, memberLeaves, foldlM_child, collect_eq_foldlM]
    exact bind_congr fun row => collectMembers_eq_foldlM base row members

end

theorem wants_eq_decide (allowed : List String) (path : String) :
    wants allowed path = decide (allowed = [] ∨ path ∈ allowed) := by
  rw [Bool.eq_iff_iff, wants, Bool.or_eq_true, List.isEmpty_iff, List.contains_iff_mem, decide_eq_true_iff]

theorem wants_of_mem {path : String} (h : path ∈ allowed) : wants allowed path = true := by
  rw [wants_eq_decide]
  exact decide_eq_true (.inr h)

/-- The walk over a container collects its leaves. -/
theorem collects_toRow (hd : d.kind = .array ∨ d.kind = .object) :
    Collects (d.pathLeaves.filter fun leaf => wants allowed leaf.1) (d.toRow allowed) := by
  have hrun : d.toRow allowed = d.pathLeaves.foldlM (addLeaf allowed) [] := by
    cases d with
    | scalar value => exact absurd hd (not_container_scalar value)
    | array items => exact collectItems_eq_foldlM none 0 [] items
    | object members => exact collectMembers_eq_foldlM none [] members
  rw [hrun, ← List.nil_append (d.pathLeaves.filter _)]
  exact collects_foldlM List.nodup_nil

/-- A container becomes a row exactly if no two of its wanted leaves spell the same path. The row is then all of
them, in document order; otherwise the first leaf whose path repeats one before it is reported. A scalar never
becomes a row. -/
theorem toRow_wanted_leaves (allowed : List String) :
    (∀ value : Scalar, (scalar value).toRow allowed = .error (.scalarRoot (scalar value).kind)) ∧
      (∀ d : Document, d.kind = .array ∨ d.kind = .object →
        let wanted := d.pathLeaves.filter fun leaf => allowed = [] ∨ leaf.1 ∈ allowed
        (∀ row, d.toRow allowed = .ok row ↔ (wanted.map (·.1)).Nodup ∧ row = wanted) ∧
          ∀ fault, d.toRow allowed = .error fault ↔
            ∃ path, FirstRepeated (wanted.map (·.1)) path ∧ fault = .repeatedPath path) ∧
      ∀ path, (Failure.format (.repeatedPath path)).message =
        "Format error: more than one value flattens to the path '" ++ path ++ "'" := by
  refine ⟨fun _ => rfl, ?_, fun _ => rfl⟩
  intro d hd wanted
  have hcollects : Collects wanted (d.toRow allowed) := by
    have h : Collects _ (d.toRow allowed) := collects_toRow hd
    simpa only [wants_eq_decide] using h
  exact ⟨fun row => hcollects.eq_ok_iff, fun fault => hcollects.eq_error_iff⟩

/-- A dotted key spells the path of an item. The row can be made as long as that path is not asked for; asking
for the array selects nothing. -/
theorem toRow_wanted_leaves_clash :
    let d := object [("a.0", .scalar (.string "x")), ("z", .null), ("a", array [.scalar (.string "y"), object []])]
    d.kind = .object ∧ d.toRow [] = .error (.repeatedPath "a.0") ∧ d.toRow ["z", "a"] = .ok [("z", .null)] := by
  intro d
  have hd : d.kind = .object := rfl
  have hall := ((toRow_wanted_leaves []).2.1 d (.inr hd)).2
  have hsome := ((toRow_wanted_leaves ["z", "a"]).2.1 d (.inr hd)).1
  have hfirst : FirstRepeated ["a.0", "z", "a.0"] "a.0" := ⟨["a.0", "z"], [], rfl, by decide, by decide⟩
  exact ⟨hd, (hall _).mpr ⟨"a.0", hfirst, rfl⟩, (hsome _).mpr ⟨by decide, rfl⟩⟩

end Document
end DocExport
