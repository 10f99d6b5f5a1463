import DocExport.Proofs.Table

/-! Reading separated values back. A reader that knows the separator and the line terminator finds
the table that was written, cell by cell, as long as no part of a terminator can be mistaken for
the end or the start of another one. -/
namespace DocExport.SeparatedValues

section Reader
variable (separator : Char) (terminator : List Char)

/-- An unquoted cell ends where a separator or a terminator stands. With the cell comes the text
behind it. -/
def bare : List Char → List Char × List Char
  | [] => ([], [])
  | c :: rest =>
    if c = separator ∨ terminator <+: c :: rest then ([], c :: rest)
    else (bare rest).map (c :: ·) id

/-- A cell behind its opening quote. It ends at the first quote that is not doubled. -/
def unquote : List Char → Option (List Char × List Char)
  | [] => none
  | '"' :: '"' :: rest => (unquote rest).map (Prod.map ('"' :: ·) id)
  | '"' :: rest => some ([], rest)
  | c :: rest => (unquote rest).map (Prod.map (c :: ·) id)

def readCell : List Char → Option (List Char × List Char)
  | '"' :: rest => unquote rest
  | text => some (bare separator terminator text)

theorem length_bare (text : List Char) : (bare separator terminator text).2.length ≤ text.length := by
  induction text with
  | nil => exact Nat.le_refl _
  | cons c rest ih =>
    rw [bare]
    split
    · exact Nat.le_refl _
    · exact Nat.le_succ_of_le ih

theorem length_of_unquote {text cell rest : List Char} (h : unquote text = some (cell, rest)) :
    rest.length < text.length := by
  fun_induction unquote text generalizing cell with
  | case1 => cases h
  | case2 more ih =>
    obtain ⟨⟨inner, after⟩, hmore, heq⟩ := Option.map_eq_some_iff.mp h
    cases heq
    exact Nat.lt_succ_of_lt (Nat.lt_succ_of_lt (ih hmore))
  | case3 =>
    cases h
    exact Nat.lt_succ_self _
  | case4 c more _ _ ih =>
    obtain ⟨⟨inner, after⟩, hmore, heq⟩ := Option.map_eq_some_iff.mp h
    cases heq
    exact Nat.lt_succ_of_lt (ih hmore)

theorem length_of_readCell {text cell rest : List Char}
    (h : readCell separator terminator text = some (cell, rest)) : rest.length ≤ text.length := by
  unfold readCell at h
  split at h
  · exact Nat.le_succ_of_le (Nat.le_of_lt (length_of_unquote h))
  · have hbare := length_bare separator terminator text
    rw [Option.some.inj h] at hbare
    exact hbare

/-- The cells up to the end of the row, and the text behind its terminator. -/
def readRow (text : List Char) : Option (List String × List Char) :=
  match _hcell : readCell separator terminator text with
  | none => none
  | some (cell, after) =>
    match after.dropPrefix? terminator with
    | some rest => some ([String.ofList cell], rest)
    | none =>
      match after with
      | [] => none
      | c :: rest =>
        if c = separator then (readRow rest).map (Prod.map (String.ofList cell :: ·) id) else none
termination_by text.length
decreasing_by exact length_of_readCell separator terminator _hcell

/-- All rows of a text, none if it does not end with a row. -/
def read (text : List Char) : Option (List (List String)) :=
  if text.isEmpty then some []
  else
    match readRow separator terminator text with
    | none => none
    | some (row, rest) => if rest.length < text.length then (read rest).map (row :: ·) else none
termination_by text.length

end Reader

/-- A terminator that cannot be mistaken: it has no quote and no separator, and nothing it starts
with, short of all of it, is what it ends with. -/
structure Clear (separator : Char) (terminator : List Char) : Prop where
  nonempty : terminator ≠ []
  no_quote : '"' ∉ terminator
  no_separator : separator ∉ terminator
  no_border : ∀ n < terminator.length, terminator.take n <:+ terminator → n = 0

variable {separator : Char} {terminator rest cell : List Char}

/-- What stands behind a cell. -/
def Boundary (separator : Char) (terminator rest : List Char) : Prop :=
  [separator] <+: rest ∨ terminator <+: rest

theorem Boundary.head_ne_quote (hclear : Clear separator terminator) (hquote : separator ≠ '"')
    (h : Boundary separator terminator rest) : rest.head? ≠ some '"' := by
  rcases h with ⟨more, rfl⟩ | ⟨more, rfl⟩
  · simpa using hquote
  · obtain ⟨c, tail, hterm⟩ := List.exists_cons_of_ne_nil hclear.nonempty
    have hc : '"' ≠ c := fun he => hclear.no_quote (by rw [hterm, he]; exact List.mem_cons_self)
    simpa [hterm] using Ne.symm hc

/-- A terminator that starts in a cell and is not all in it goes on behind the cell. -/
theorem exists_straddling (hout : ¬ terminator <:+: cell) (h : terminator <+: cell ++ rest) :
    ∃ part, cell ++ part = terminator ∧ part ≠ [] ∧ part <+: rest := by
  rcases List.prefix_or_prefix_of_prefix h (List.prefix_append cell rest) with hin | ⟨part, hpart⟩
  · exact absurd hin.isInfix hout
  · refine ⟨part, hpart, ?_, ?_⟩
    · rintro rfl
      rw [List.append_nil] at hpart
      exact hout (hpart ▸ List.infix_rfl)
    · rwa [← hpart, List.prefix_append_right_inj] at h

theorem not_prefix_append_terminator (hborder : ∀ n < terminator.length, terminator.take n <:+ terminator → n = 0)
    (hne : cell ≠ []) (hout : ¬ terminator <:+: cell) : ¬ terminator <+: cell ++ (terminator ++ rest) := by
  intro hprefix
  obtain ⟨part, hpart, hpartNe, hrest⟩ := exists_straddling hout hprefix
  have hlength : cell.length + part.length = terminator.length := by rw [← hpart, List.length_append]
  have hcell : 0 < cell.length := List.length_pos_of_ne_nil hne
  have htake : part = terminator.take part.length := List.prefix_iff_eq_take.mp
    (List.prefix_of_prefix_length_le hrest (List.prefix_append terminator rest) (by omega))
  have hzero := hborder part.length (by omega) (htake ▸ ⟨cell, hpart⟩)
  exact hpartNe (List.length_eq_zero_iff.mp hzero)

/-- No terminator starts inside an unquoted cell, not even one that ends behind it. -/
theorem not_prefix_of_boundary (hclear : Clear separator terminator) (h : Boundary separator terminator rest)
    (hne : cell ≠ []) (hout : ¬ terminator <:+: cell) : ¬ terminator <+: cell ++ rest := by
  rcases h with hseparator | ⟨more, rfl⟩
  · intro hprefix
    obtain ⟨part, hpart, hpartNe, hrest⟩ := exists_straddling hout hprefix
    have hfirst : [separator] <+: part :=
      List.prefix_of_prefix_length_le hseparator hrest (List.length_pos_of_ne_nil hpartNe)
    refine hclear.no_separator ?_
    rw [← hpart]
    exact List.mem_append_right cell (hfirst.mem List.mem_cons_self)
  · exact not_prefix_append_terminator hclear.no_border hne hout

theorem bare_append (hclear : Clear separator terminator) (h : Boundary separator terminator rest)
    (hsep : separator ∉ cell) (hout : ¬ terminator <:+: cell) :
    bare separator terminator (cell ++ rest) = (cell, rest) := by
  induction cell with
  | nil =>
    cases rest with
    | nil => rfl
    | cons c rest =>
      have hstop : c = separator ∨ terminator <+: c :: rest := by
        refine h.imp_left fun hs => ?_
        exact (List.cons_prefix_cons.mp hs).1.symm
      rw [List.nil_append, bare, if_pos hstop]
  | cons c cell ih =>
    have hgo : ¬ (c = separator ∨ terminator <+: c :: (cell ++ rest)) := by
      rintro (rfl | hprefix)
      · exact hsep List.mem_cons_self
      · exact not_prefix_of_boundary hclear h (List.cons_ne_nil c cell) hout hprefix
    rw [List.cons_append, bare, if_neg hgo,
      ih (fun hmem => hsep (List.mem_cons_of_mem _ hmem)) (fun hin => hout (List.infix_cons_iff.mpr (.inr hin)))]
    rfl

theorem unquote_quoted (hrest : rest.head? ≠ some '"') (cell : List Char) :
    unquote (cell.flatMap (fun c => if c = '"' then ['"', '"'] else [c]) ++ '"' :: rest) = some (cell, rest) := by
  induction cell with
  | nil =>
    cases rest with
    | nil => rfl
    | cons c rest =>
      have hc : c ≠ '"' := by simpa using hrest
      simp [unquote, hc]
  | cons c cell ih =>
    by_cases hc : c = '"'
    · simp [unquote, hc, ih]
    · simp [unquote, hc, ih]

theorem occursIn_iff (part text : List Char) : occursIn part text = true ↔ part <:+: text := by
  induction text with
  | nil => simp [occursIn]
  | cons c rest ih => simp [occursIn, ih, List.infix_cons_iff]

theorem readCell_of_head_ne_quote {text : List Char} (h : text.head? ≠ some '"') :
    readCell separator terminator text = some (bare separator terminator text) := by
  unfold readCell
  split
  · simp at h
  · rfl

theorem readCell_escape (hclear : Clear separator terminator) (hquote : separator ≠ '"')
    (h : Boundary separator terminator rest) (cell : List Char) :
    readCell separator terminator (escape separator terminator cell ++ rest) = some (cell, rest) := by
  have hhead := h.head_ne_quote hclear hquote
  unfold escape
  split
  · rw [quoted, List.cons_append, List.cons_append, List.append_assoc]
    exact unquote_quoted hhead cell
  · rename_i hplain
    simp only [needsQuotes, Bool.or_eq_true, Bool.and_eq_true, List.any_eq_true, decide_eq_true_eq, not_or,
      not_exists, not_and, occursIn_iff] at hplain
    have hsep : separator ∉ cell := fun hmem => by simpa using hplain.1 separator hmem
    have hout : ¬ terminator <:+: cell := hplain.2 (by simpa using hclear.nonempty)
    have hstart : (cell ++ rest).head? ≠ some '"' := by
      cases cell with
      | nil => exact hhead
      | cons c cell =>
        have hc := hplain.1 c List.mem_cons_self
        simp_all
    rw [readCell_of_head_ne_quote hstart, bare_append hclear h hsep hout]

private theorem readRow_of_terminator {text : List Char}
    (h : readCell separator terminator text = some (cell, terminator ++ rest)) :
    readRow separator terminator text = some ([String.ofList cell], rest) := by
  have hdrop : (terminator ++ rest).dropPrefix? terminator = some rest :=
    List.dropPrefix?_append_of_beq rest (by simp)
  rw [readRow]
  split
  · simp_all
  · rename_i cell' after hcell
    cases h.symm.trans hcell
    simp only [hdrop]

private theorem readRow_of_separator {text : List Char} (hclear : Clear separator terminator)
    (h : readCell separator terminator text = some (cell, separator :: rest)) :
    readRow separator terminator text =
      (readRow separator terminator rest).map (Prod.map (String.ofList cell :: ·) id) := by
  have hdrop : (separator :: rest).dropPrefix? terminator = none := by
    rw [Option.eq_none_iff_forall_ne_some]
    intro more hmore
    obtain ⟨part, hpart, hterm⟩ := List.dropPrefix?_eq_some_iff.mp hmore
    obtain ⟨c, tail, rfl⟩ := List.exists_cons_of_ne_nil (eq_of_beq hterm ▸ hclear.nonempty)
    rw [List.cons_append, List.cons.injEq] at hpart
    refine hclear.no_separator ?_
    rw [← eq_of_beq hterm, hpart.1]
    exact List.mem_cons_self
  rw [readRow]
  split
  · simp_all
  · rename_i cell' after hcell
    cases h.symm.trans hcell
    simp only [hdrop, ↓reduceIte]

theorem writeRow_cons_cons (cell next : String) (cells : List String) :
    writeRow separator terminator (cell :: next :: cells) ++ rest =
      escape separator terminator cell.toList ++
        separator :: (writeRow separator terminator (next :: cells) ++ rest) := by
  simp [writeRow, List.intercalate_cons_cons]

/-- A row is read up to its terminator, whatever follows. -/
theorem readRow_writeRow (hclear : Clear separator terminator) (hquote : separator ≠ '"') {cells : List String}
    (hcells : cells ≠ []) (rest : List Char) :
    readRow separator terminator (writeRow separator terminator cells ++ rest) = some (cells, rest) := by
  induction cells with
  | nil => exact absurd rfl hcells
  | cons cell cells ih =>
    cases cells with
    | nil =>
      have hboundary : Boundary separator terminator (terminator ++ rest) := .inr (List.prefix_append ..)
      have hcell := readCell_escape hclear hquote hboundary cell.toList
      rw [writeRow, List.map_singleton, List.intercalate_singleton, List.append_assoc,
        readRow_of_terminator hcell, String.ofList_toList]
    | cons next cells =>
      have hboundary : Boundary separator terminator
          (separator :: (writeRow separator terminator (next :: cells) ++ rest)) := .inl ⟨_, rfl⟩
      have hcell := readCell_escape hclear hquote hboundary cell.toList
      rw [writeRow_cons_cons, readRow_of_separator hclear hcell, ih (List.cons_ne_nil next cells), String.ofList_toList]
      rfl

/-- Rows are read back one by one, each with all of its cells. -/
theorem read_writeRow (hclear : Clear separator terminator) (hquote : separator ≠ '"') {rows : List (List String)}
    (hrows : ∀ row ∈ rows, row ≠ []) :
    read separator terminator (rows.flatMap (writeRow separator terminator)) = some rows := by
  induction rows with
  | nil => simp [read]
  | cons row rows ih =>
    have hrow := readRow_writeRow hclear hquote (hrows row List.mem_cons_self)
      (rows.flatMap (writeRow separator terminator))
    have hpos : 0 < terminator.length := List.length_pos_of_ne_nil hclear.nonempty
    have hlt : (rows.flatMap (writeRow separator terminator)).length <
        (writeRow separator terminator row ++ rows.flatMap (writeRow separator terminator)).length := by
      rw [List.length_append, writeRow, List.length_append]
      omega
    have hne :
        (writeRow separator terminator row ++ rows.flatMap (writeRow separator terminator)).isEmpty = false := by
      rw [List.isEmpty_eq_false_iff]
      exact List.ne_nil_of_length_pos (Nat.lt_of_le_of_lt (Nat.zero_le _) hlt)
    rw [List.flatMap_cons, read, hne, hrow]
    simp only [Bool.false_eq_true, ↓reduceIte, hlt, ih fun r hr => hrows r (List.mem_cons_of_mem _ hr),
      Option.map_some]

theorem separator_ne_quote (requested : Option String) : SeparatedValues.separator requested ≠ '"' := by
  unfold SeparatedValues.separator
  cases requested with
  | none => decide
  | some requested =>
    dsimp only
    split
    · decide
    · split
      · split
        · decide
        · assumption
      · decide

theorem exists_table_of_render {layout : Layout} {docs : List Document} {body : String} (hdocs : docs ≠ [])
    (h : render layout docs = .ok body) :
    ∃ t, Table.ofDocuments layout.keys layout.labels docs = .ok t ∧
      body = write (SeparatedValues.separator layout.delimiter) layout.lineTerminator t := by
  have hne : docs.isEmpty = false := by simpa using hdocs
  simp only [render, hne, Bool.false_eq_true, if_false] at h
  cases ht : Table.ofDocuments layout.keys layout.labels docs with
  | error fault =>
    rw [ht] at h
    cases h
  | ok t =>
    rw [ht] at h
    cases h
    exact ⟨t, rfl, rfl⟩

/-- A body is read back as a header and one row for each document, in order. The header has the
labels if there is one for each column, and each row has the cells of its document. -/
theorem read_render (layout : Layout) (docs : List Document) (body : String) (hdocs : docs ≠ [])
    (hcolumns : Table.columnPaths layout.keys docs ≠ [])
    (hclear : Clear (SeparatedValues.separator layout.delimiter) layout.lineTerminator.toList)
    (h : render layout docs = .ok body) :
    let columns := Table.columnPaths layout.keys docs
    let header := if layout.labels.length = columns.length then layout.labels else columns
    ∃ rows, read (SeparatedValues.separator layout.delimiter) layout.lineTerminator.toList body.toList =
        some (header :: rows) ∧
      List.Forall₂ (fun d row => List.Forall₂ d.HasCell columns row) docs rows := by
  intro columns header
  obtain ⟨t, ht, rfl⟩ := exists_table_of_render hdocs h
  obtain ⟨hheader, hrows⟩ := Table.ofDocuments_eq_ok ht
  refine ⟨t.rows, ?_, hrows⟩
  have hcells : ∀ row ∈ t.header :: t.rows, row ≠ [] := by
    intro row hmem
    have hpos : 0 < row.length :=
      Table.length_eq_of_ofDocuments ht hmem ▸ List.length_pos_of_ne_nil hcolumns
    exact List.ne_nil_of_length_pos hpos
  rw [write, String.toList_ofList, read_writeRow hclear (separator_ne_quote _) hcells, hheader]

/-- Cells with a quote, the separator and the terminator, and a document that lacks a leaf. -/
theorem read_render_quoted :
    let first : Document := .object [("a", .scalar (.string "x,\"y")), ("b", .scalar (.string "1\r\n2"))]
    let second : Document := .object [("c", .null), ("a", .scalar (.bool true))]
    let layout : Layout := ⟨[], ["id", "text"], some ",", false, "\r\n", ""⟩
    let body := "id,text\r\n\"x,\"\"y\",\"1\r\n2\"\r\ntrue,\r\n"
    (Table.columnPaths layout.keys [first, second] = ["a", "b"] ∧
        Clear (SeparatedValues.separator layout.delimiter) layout.lineTerminator.toList ∧
        render layout [first, second] = .ok body) ∧
      read ',' ['\r', '\n'] body.toList = some [["id", "text"], ["x,\"y", "1\r\n2"], ["true", ""]] := by
  intro first second layout body
  have hcolumns : Table.columnPaths layout.keys [first, second] = ["a", "b"] := by rfl
  have hclear : Clear (SeparatedValues.separator layout.delimiter) layout.lineTerminator.toList :=
    ⟨by decide, by decide, by decide, by decide⟩
  have hseparator : SeparatedValues.separator layout.delimiter = ',' := by decide
  have htable : Table.ofDocuments layout.keys layout.labels [first, second] =
      .ok ⟨["id", "text"], [["x,\"y", "1\r\n2"], ["true", ""]]⟩ := by rfl
  have hbody : render layout [first, second] = .ok body := by
    have hwrite : write ',' "\r\n" ⟨["id", "text"], [["x,\"y", "1\r\n2"], ["true", ""]]⟩ = body := by cbv
    rw [render, List.isEmpty_cons, htable, hseparator]
    exact congrArg Except.ok hwrite
  refine ⟨⟨hcolumns, hclear, hbody⟩, ?_⟩
  obtain ⟨rows, hread, hrows⟩ :=
    read_render layout [first, second] body (by simp) (by simp [hcolumns]) hclear hbody
  have hfirst : first.pathLeaves = [("a", .string "x,\"y"), ("b", .string "1\r\n2")] := by rfl
  have hsecond : second.pathLeaves = [("c", .null), ("a", .bool true)] := by rfl
  rw [hcolumns] at hread hrows
  simp only [List.forall₂_cons_left_iff, List.forall₂_nil_left_iff, Document.HasCell, hfirst, hsecond,
    List.forall_mem_cons] at hrows
  have heq : rows = [["x,\"y", "1\r\n2"], ["true", ""]] := by simpa [Scalar.text] using hrows
  have hterminator : layout.lineTerminator.toList = ['\r', '\n'] := by decide
  rw [hseparator, hterminator, heq] at hread
  exact hread

end DocExport.SeparatedValues
