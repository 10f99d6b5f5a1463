import DocExport.Output.Table
import DocExport.Proofs.Leaves

/-! What the table of a document collection holds: a column for each path asked for, or for each
leaf of the first document, a row for each document, and in a cell the text of the leaf that the
document has at the path of the column. -/
namespace DocExport
variable {d : Document} {docs : List Document} {keys labels : List String} {row : Row}

namespace Document

/-- The text of a path in a table: that of the leaf at the path, nothing if there is no leaf. -/
def HasCell (d : Document) (path text : String) : Prop :=
  (∀ leaf ∈ d.pathLeaves, leaf.1 = path → text = leaf.2.text) ∧
    ((∀ leaf ∈ d.pathLeaves, leaf.1 ≠ path) → text = "")

end Document

namespace Table

/-- The paths of the columns: the keys, or without keys those of the leaves of the first document. -/
def columnPaths (keys : List String) (docs : List Document) : List String :=
  if keys.isEmpty then (docs.head?.map fun d => d.pathLeaves.map (·.1)).getD [] else keys

theorem columns_eq_columnPaths {rows : List Row} (h : Document.toRows keys docs = .ok rows) :
    columns keys rows = columnPaths keys docs := by
  unfold columns columnPaths
  split
  · rename_i hkeys
    cases Document.toRows_eq_ok h with
    | nil => rfl
    | cons hrow _ =>
      have hall : ∀ path, Document.wants keys path = true := fun path => by simp [Document.wants, hkeys]
      obtain ⟨rfl, -⟩ := Document.toRow_eq_ok hrow
      simp [hall]
  · rfl

theorem wants_of_mem_columnPaths {column : String} (h : column ∈ columnPaths keys docs) :
    Document.wants keys column = true := by
  unfold columnPaths at h
  split at h
  · simp_all [Document.wants]
  · exact Document.wants_of_mem h

theorem hasCell_cell {column : String} (h : d.toRow keys = .ok row) (hcolumn : Document.wants keys column = true) :
    d.HasCell column (cell row column) := by
  obtain ⟨hrow, hnodup⟩ := Document.toRow_eq_ok h
  constructor
  · rintro ⟨path, scalar⟩ hleaf rfl
    have hmem : (path, scalar) ∈ row := hrow ▸ List.mem_filter.mpr ⟨hleaf, hcolumn⟩
    simp [cell, lookup_eq_some_of_mem hnodup hmem]
  · intro hnone
    have hlookup : row.lookup column = none := by
      rw [List.lookup_eq_none_iff]
      intro leaf hmem
      have hne := hnone leaf (List.mem_of_mem_filter (hrow ▸ hmem))
      simpa using Ne.symm hne
    simp [cell, hlookup]

/-- A table that is laid out has one row for each document, with the texts of its leaves. -/
theorem ofDocuments_eq_ok {t : Table} (h : ofDocuments keys labels docs = .ok t) :
    t.header = (if labels.length = (columnPaths keys docs).length then labels else columnPaths keys docs) ∧
      List.Forall₂ (fun d row => List.Forall₂ d.HasCell (columnPaths keys docs) row) docs t.rows := by
  rw [ofDocuments] at h
  split at h
  · cases h
  · rename_i rows hrows
    cases h
    rw [columns_eq_columnPaths hrows]
    refine ⟨rfl, List.forall₂_map_right_iff.mpr ((Document.toRows_eq_ok hrows).imp fun d row hrow => ?_)⟩
    rw [List.forall₂_map_right_iff, List.forall₂_same]
    exact fun column hcolumn => hasCell_cell hrow (wants_of_mem_columnPaths hcolumn)

/-- No row is shifted: the header and all rows have as many cells as there are columns. -/
theorem length_eq_of_ofDocuments {t : Table} (h : ofDocuments keys labels docs = .ok t) {cells : List String}
    (hcells : cells ∈ t.header :: t.rows) : cells.length = (columnPaths keys docs).length := by
  obtain ⟨hheader, hrows⟩ := ofDocuments_eq_ok h
  rcases List.mem_cons.mp hcells with rfl | hcells
  · rw [hheader]
    split
    · assumption
    · rfl
  · have hlengths : List.Forall₂ (fun cells d =>
        cells.length = (columnPaths keys docs).length ∧ List.Forall₂ d.HasCell (columnPaths keys docs) cells)
        t.rows docs := List.Forall₂.flip (hrows.imp fun _ _ hrow => ⟨hrow.length_eq.symm, hrow⟩)
    exact ((List.forall₂_and_left _ _).mp hlengths).1 cells hcells

end Table
end DocExport
