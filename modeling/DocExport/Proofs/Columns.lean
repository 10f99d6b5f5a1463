import DocExport.Proofs.Processing
import DocExport.Proofs.Table

/-! Columns that are named and columns that are taken from the first document. Rows that are cut down to the
columns of their table still make the same table, so to name the leaf paths of the first document as keys is to
name none. -/
namespace DocExport
variable {d : Document} {docs : List Document} {row : Row} {rows : List Row} {layout : Layout}

/-- The leaves of a row whose paths are wanted. -/
def Row.cut (keys : List String) (row : Row) : Row := row.filter fun leaf => Document.wants keys leaf.1

theorem Row.cut_cons (keys : List String) (leaf : String × Scalar) (row : Row) :
    Row.cut keys (leaf :: row) = if Document.wants keys leaf.1 then leaf :: row.cut keys else row.cut keys :=
  List.filter_cons

/-- Only at paths that are not wanted there is less to be found. -/
theorem Row.lookup_cut (keys : List String) (key : String) (row : Row) :
    (row.cut keys).lookup key = if Document.wants keys key then row.lookup key else none := by
  induction row with
  | nil => rw [cut, List.filter_nil, List.lookup_nil, ite_self]
  | cons leaf row ih =>
    obtain ⟨path, value⟩ := leaf
    by_cases hpath : key = path
    · subst hpath
      cases hwants : Document.wants keys key <;> simp [cut_cons, hwants, ih]
    · have hkey : (key == path) = false := beq_eq_false_iff_ne.mpr hpath
      cases hwants : Document.wants keys path <;> simp [cut_cons, hwants, List.lookup_cons, hkey, ih]

namespace Document

/-- A document that becomes a row with all its leaves becomes one with any of them. -/
theorem toRowAt_eq_ok_cut {position : Nat} (h : d.toRowAt [] position = .ok row) (keys : List String) :
    d.toRowAt keys position = .ok (row.cut keys) := by
  unfold toRowAt at h ⊢
  split at h
  · rename_i hobject
    obtain ⟨hd, rfl⟩ := toRow_nil_eq_ok h
    rw [if_pos hobject]
    exact toRow_eq_ok_of_nodup hd (toRow_eq_ok h).2
  · cases h

theorem toRows_eq_ok_cut (h : toRows [] docs = .ok rows) (keys : List String) :
    toRows keys docs = .ok (rows.map (Row.cut keys)) := by
  refine mapM_eq_ok_iff.mpr (List.forall₂_map_right_iff.mpr ?_)
  exact (mapM_eq_ok_iff.mp h).imp fun _ _ hrow => toRowAt_eq_ok_cut hrow keys

end Document

namespace Table

/-- The columns of a table are its columns as well when they are named. -/
theorem columns_cut (rows : List Row) :
    columns (columns [] rows) (rows.map (Row.cut (columns [] rows))) = columns [] rows := by
  match rows with
  | [] => rfl
  | [] :: rows => rfl
  | (leaf :: row) :: rows => rfl

theorem cell_cut {keys : List String} {column : String} (h : column ∈ keys) (row : Row) :
    cell (row.cut keys) column = cell row column := by
  rw [cell, Row.lookup_cut, if_pos (Document.wants_of_mem h), cell]

theorem ofRows_cut (hkeys : layout.keys = []) (rows : List Row) :
    ofRows { layout with keys := columns [] rows } (rows.map (Row.cut (columns [] rows))) = ofRows layout rows := by
  simp only [ofRows, columns_cut, hkeys, List.map_map]
  congr 1
  refine List.map_congr_left fun row _ => List.map_congr_left fun column hcolumn => ?_
  exact cell_cut hcolumn row

end Table

namespace SeparatedValues

/-- Without keys the columns are the leaf paths of the first document. A body that is made so is made again, and
is the same, with these paths for keys, whatever leaves the other documents lack or have besides. -/
theorem render_leafPath_keys (layout : Layout) (d : Document) (docs : List Document) (body : String)
    (hkeys : layout.keys = []) (h : render layout (d :: docs) = .ok body) :
    render { layout with keys := d.pathLeaves.map (·.1) } (d :: docs) = .ok body := by
  rw [render_eq_map, map_eq_ok_iff, hkeys] at h
  obtain ⟨rows, hrows, rfl⟩ := h
  have hcolumns : d.pathLeaves.map (·.1) = Table.columns [] rows := (Table.columns_eq_columnPaths hrows).symm
  rw [render_eq_map, map_eq_ok_iff, hcolumns]
  refine ⟨_, Document.toRows_eq_ok_cut hrows _, ?_⟩
  rw [SeparatedValues.body, SeparatedValues.body, Table.ofRows_cut hkeys, List.isEmpty_map]

/-- Documents that lack leaves of the first one, have others besides, or have them in another order. -/
theorem render_leafPath_keys_ragged :
    let layout : Layout := ⟨[], ["left", "right"], some ",", false, "\r\n", "text/csv"⟩
    let first : Document :=
      .object [("a", .object [("b", .scalar (.string "x,y"))]), ("c", .array [.scalar (.bool true)])]
    let second : Document := .object [("z", .null), ("c", .array [.scalar (.string "1"), .scalar (.string "2")]),
      ("a", .object [("b", .null), ("e", .null)])]
    let third : Document := .object [("a", .scalar (.string "w"))]
    let body := "left,right\r\n\"x,y\",true\r\n,1\r\n,\r\n"
    (layout.keys = [] ∧ render layout [first, second, third] = .ok body) ∧
      render { layout with keys := ["a.b", "c.0"] } [first, second, third] = .ok body := by
  intro layout first second third body
  have hkeys : layout.keys = [] := rfl
  have h : render layout [first, second, third] = .ok body := by decide +kernel
  exact ⟨⟨hkeys, h⟩, render_leafPath_keys layout first [second, third] body hkeys h⟩

end SeparatedValues
end DocExport
