import DocExport.Proofs.SeparatedValues
import Mathlib.Data.List.TakeWhile

/-! What a table body tells about the cells. The reader here knows how many columns there are and
nothing else, and the line terminator may be any that the settings accept. A terminator that starts
with no quote keeps all cells apart exactly if it has a character that forces a cell into quotes, or
cannot overlap itself. -/
namespace DocExport.SeparatedValues

/-- Characters that put a cell into quotes. -/
def forcing (separator : Char) : List Char := [separator, '\n', '\r', '\t', '"']

/-- What a text starts with, short of all of it, is also what it ends with. -/
def Bordered (text : List Char) : Prop := ∃ n < text.length, 0 < n ∧ text.take n <:+ text

instance (text : List Char) : Decidable (Bordered text) :=
  inferInstanceAs (Decidable (∃ n < text.length, 0 < n ∧ text.take n <:+ text))

/-- As many documents in both collections, with the same texts in the cells of the columns. -/
def SameCells (columns : List String) (docs docs' : List Document) : Prop :=
  ∃ rows, List.Forall₂ (fun d row => List.Forall₂ d.HasCell columns row) docs rows ∧
    List.Forall₂ (fun d row => List.Forall₂ d.HasCell columns row) docs' rows

/-- Collections with the same body have the same cells, whatever keys and labels are asked for. -/
def Unambiguous (terminator : String) (delimiter : Option String) : Prop :=
  ∀ (layout : Layout) (docs docs' : List Document) (body : String),
    layout.lineTerminator = terminator → layout.delimiter = delimiter → layout.keys ≠ [] →
      render layout docs = .ok body → render layout docs' = .ok body → SameCells layout.keys docs docs'

variable {separator : Char} {terminator cell cell' after after' rest rest' : List Char}

theorem needsQuotes_eq_false_iff (hne : terminator ≠ []) :
    needsQuotes separator terminator cell = false ↔
      (∀ c ∈ cell, c ∉ forcing separator) ∧ ¬ terminator <:+: cell := by
  simp [needsQuotes, forcing, ← occursIn_iff, hne, and_assoc]

/-- Cells without forcing characters are the same if what follows them starts the same way up to the
first forcing character. -/
theorem eq_of_append_of_forcing (hcell : ∀ c ∈ cell, c ∉ forcing separator)
    (hcell' : ∀ c ∈ cell', c ∉ forcing separator)
    (hafter : after.takeWhile (· ∉ forcing separator) = after'.takeWhile (· ∉ forcing separator))
    (h : cell ++ after = cell' ++ after') : cell = cell' := by
  have htake := congrArg (List.takeWhile (· ∉ forcing separator)) h
  rw [List.takeWhile_append_of_pos (by simpa using hcell), List.takeWhile_append_of_pos (by simpa using hcell'),
    hafter] at htake
  exact List.append_cancel_right htake

theorem eq_nil_of_terminator {front more : List Char} (hborder : ¬ Bordered terminator)
    (hout : ¬ terminator <:+: front ++ more) (h : terminator ++ rest = more ++ (terminator ++ rest')) : more = [] := by
  by_contra hne
  have hmore : ¬ terminator <:+: more := fun hin => hout (hin.trans (List.suffix_append front more).isInfix)
  have hzero : ∀ n < terminator.length, terminator.take n <:+ terminator → n = 0 := by
    intro n hn hsuffix
    by_contra hn'
    exact hborder ⟨n, hn, Nat.pos_of_ne_zero hn', hsuffix⟩
  exact not_prefix_append_terminator hzero hne hmore (h ▸ List.prefix_append terminator rest)

theorem eq_of_append_terminator (hborder : ¬ Bordered terminator) (hout : ¬ terminator <:+: cell)
    (hout' : ¬ terminator <:+: cell') (h : cell ++ (terminator ++ rest) = cell' ++ (terminator ++ rest')) :
    cell = cell' := by
  rcases List.append_eq_append_iff.mp h with ⟨more, rfl, htail⟩ | ⟨more, rfl, htail⟩
  · rw [eq_nil_of_terminator hborder hout' htail, List.append_nil]
  · rw [eq_nil_of_terminator hborder hout htail, List.append_nil]

theorem quoted_append_inj (hafter : after.head? ≠ some '"') (hafter' : after'.head? ≠ some '"')
    (h : quoted cell ++ after = quoted cell' ++ after') : cell = cell' := by
  have hread := unquote_quoted hafter cell
  have hread' := unquote_quoted hafter' cell'
  simp only [quoted, List.cons_append, List.append_assoc, List.nil_append, List.cons.injEq, true_and] at h
  rw [h, hread'] at hread
  exact (congrArg Prod.fst (Option.some.inj hread)).symm

theorem head?_append_ne_quote (hcell : ∀ c ∈ cell, c ∉ forcing separator) (hafter : after.head? ≠ some '"') :
    (cell ++ after).head? ≠ some '"' := by
  cases cell with
  | nil => exact hafter
  | cons c cell =>
    intro hquote
    cases Option.some.inj hquote
    exact hcell '"' List.mem_cons_self (by simp [forcing])

/-- Cells are the same if what they are written as is, with texts behind them that start with no
quote and cannot be confused behind cells that stand unquoted. -/
theorem escape_append_inj (hne : terminator ≠ []) (hafter : after.head? ≠ some '"') (hafter' : after'.head? ≠ some '"')
    (hplain : (∀ c ∈ cell, c ∉ forcing separator) → (∀ c ∈ cell', c ∉ forcing separator) →
      ¬ terminator <:+: cell → ¬ terminator <:+: cell' → cell ++ after = cell' ++ after' → cell = cell')
    (h : escape separator terminator cell ++ after = escape separator terminator cell' ++ after') :
    cell = cell' := by
  unfold escape at h
  cases hcell : needsQuotes separator terminator cell <;> cases hcell' : needsQuotes separator terminator cell' <;>
    simp only [hcell, hcell', Bool.false_eq_true, if_true, if_false] at h
  · obtain ⟨hforcing, hout⟩ := (needsQuotes_eq_false_iff hne).mp hcell
    obtain ⟨hforcing', hout'⟩ := (needsQuotes_eq_false_iff hne).mp hcell'
    exact hplain hforcing hforcing' hout hout' h
  · have hhead := head?_append_ne_quote ((needsQuotes_eq_false_iff hne).mp hcell).1 hafter
    rw [h] at hhead
    exact absurd rfl hhead
  · have hhead := head?_append_ne_quote ((needsQuotes_eq_false_iff hne).mp hcell').1 hafter'
    rw [← h] at hhead
    exact absurd rfl hhead
  · exact quoted_append_inj hafter hafter' h

/-- What keeps cells apart that stand at the end of a row. -/
structure Separating (separator : Char) (terminator : List Char) : Prop where
  nonempty : terminator ≠ []
  head_ne_quote : terminator.head? ≠ some '"'
  apart : (∃ c ∈ terminator, c ∈ forcing separator) ∨ ¬ Bordered terminator

theorem escape_separator_inj (hne : terminator ≠ []) (hquote : separator ≠ '"')
    (h : escape separator terminator cell ++ separator :: rest =
      escape separator terminator cell' ++ separator :: rest') : cell = cell' ∧ rest = rest' := by
  have hhead (rest : List Char) : (separator :: rest).head? ≠ some '"' := by simpa using hquote
  have hcell : cell = cell' := by
    refine escape_append_inj hne (hhead rest) (hhead rest') (fun hforcing hforcing' _ _ => ?_) h
    exact eq_of_append_of_forcing hforcing hforcing' (by simp [forcing])
  subst hcell
  exact ⟨rfl, (List.cons.inj (List.append_cancel_left h)).2⟩

theorem escape_terminator_inj (hsep : Separating separator terminator)
    (h : escape separator terminator cell ++ (terminator ++ rest) =
      escape separator terminator cell' ++ (terminator ++ rest')) : cell = cell' ∧ rest = rest' := by
  have hhead (rest : List Char) : (terminator ++ rest).head? ≠ some '"' := by
    obtain ⟨c, tail, hcons⟩ := List.exists_cons_of_ne_nil hsep.nonempty
    simpa [hcons] using hsep.head_ne_quote
  have hcell : cell = cell' := by
    refine escape_append_inj hsep.nonempty (hhead rest) (hhead rest') (fun hforcing hforcing' hout hout' => ?_) h
    rcases hsep.apart with ⟨c, hmem, hc⟩ | hborder
    · have htake (rest : List Char) : (terminator ++ rest).takeWhile (· ∉ forcing separator) =
          terminator.takeWhile (· ∉ forcing separator) := by
        rw [List.takeWhile_append, if_neg]
        intro hlen
        have hall := List.takeWhile_eq_self_iff.mp ((List.takeWhile_prefix _).eq_of_length hlen)
        simpa [hc] using hall c hmem
      exact eq_of_append_of_forcing hforcing hforcing' ((htake rest).trans (htake rest').symm)
    · exact eq_of_append_terminator hborder hout hout'
  subst hcell
  exact ⟨rfl, List.append_cancel_left (List.append_cancel_left h)⟩

theorem writeRow_append_inj (hsep : Separating separator terminator) (hquote : separator ≠ '"')
    {cells cells' : List String} (hlen : cells.length = cells'.length) (hne : cells ≠ [])
    (h : writeRow separator terminator cells ++ rest = writeRow separator terminator cells' ++ rest') :
    cells = cells' ∧ rest = rest' := by
  induction cells generalizing cells' with
  | nil => exact absurd rfl hne
  | cons cell cells ih =>
    match cells, cells', hlen with
    | [], [cell'], _ =>
      simp only [writeRow, List.map_singleton, List.intercalate_singleton, List.append_assoc] at h
      obtain ⟨hcell, hrest⟩ := escape_terminator_inj hsep h
      exact ⟨by rw [String.toList_inj.mp hcell], hrest⟩
    | next :: cells, cell' :: next' :: cells', hlen =>
      rw [writeRow_cons_cons, writeRow_cons_cons] at h
      obtain ⟨hcell, htail⟩ := escape_separator_inj hsep.nonempty hquote h
      obtain ⟨hcells, hrest⟩ := ih (Nat.succ.inj hlen) (List.cons_ne_nil next cells) htail
      exact ⟨by rw [String.toList_inj.mp hcell, hcells], hrest⟩

/-- Rows of one length are told by what they are written as, and so is their number. -/
theorem flatMap_writeRow_inj (hsep : Separating separator terminator) (hquote : separator ≠ '"')
    {n : Nat} (hn : 0 < n) {rows rows' : List (List String)} (hrows : ∀ row ∈ rows, row.length = n)
    (hrows' : ∀ row ∈ rows', row.length = n)
    (h : rows.flatMap (writeRow separator terminator) = rows'.flatMap (writeRow separator terminator)) :
    rows = rows' := by
  have hpos (row : List String) : writeRow separator terminator row ≠ [] :=
    List.append_ne_nil_of_right_ne_nil _ hsep.nonempty
  induction rows generalizing rows' with
  | nil =>
    cases rows' with
    | nil => rfl
    | cons row' rows' => exact absurd (List.append_eq_nil_iff.mp h.symm).1 (hpos row')
  | cons row rows ih =>
    cases rows' with
    | nil => exact absurd (List.append_eq_nil_iff.mp h).1 (hpos row)
    | cons row' rows' =>
      obtain ⟨hrow, hrest⟩ := List.forall_mem_cons.mp hrows
      obtain ⟨hrow', hrest'⟩ := List.forall_mem_cons.mp hrows'
      have hne : row ≠ [] := List.ne_nil_of_length_pos (hrow ▸ hn)
      obtain ⟨rfl, htail⟩ := writeRow_append_inj hsep hquote (hrow.trans hrow'.symm) hne h
      rw [ih hrest hrest' htail]

variable {layout : Layout} {docs docs' : List Document} {body : String}

/-- The rows of a table with keys, behind the header if there are any. -/
def headed (layout : Layout) (rows : List (List String)) : List (List String) :=
  if rows.isEmpty then []
  else (if layout.labels.length = layout.keys.length then layout.labels else layout.keys) :: rows

theorem headed_inj {rows rows' : List (List String)} (h : headed layout rows = headed layout rows') : rows = rows' := by
  unfold headed at h
  cases rows <;> cases rows' <;> simp_all

theorem exists_rows_of_render (hkeys : layout.keys ≠ []) (h : render layout docs = .ok body) :
    ∃ rows, List.Forall₂ (fun d row => List.Forall₂ d.HasCell layout.keys row) docs rows ∧
      (∀ row ∈ headed layout rows, row.length = layout.keys.length) ∧
      body.toList = (headed layout rows).flatMap
        (writeRow (SeparatedValues.separator layout.delimiter) layout.lineTerminator.toList) := by
  by_cases hdocs : docs = []
  · subst hdocs
    cases h
    exact ⟨[], .nil, List.forall_mem_nil _, rfl⟩
  · obtain ⟨t, ht, rfl⟩ := exists_table_of_render hdocs h
    have hcolumns : Table.columnPaths layout.keys docs = layout.keys := by simp [Table.columnPaths, hkeys]
    obtain ⟨hheader, hrows⟩ := Table.ofDocuments_eq_ok ht
    have hlengths : ∀ cells ∈ t.header :: t.rows, cells.length = (Table.columnPaths layout.keys docs).length :=
      fun _ hmem => Table.length_eq_of_ofDocuments ht hmem
    rw [hcolumns] at hheader hrows hlengths
    have hne : t.rows.isEmpty = false := by
      rw [List.isEmpty_eq_false_iff, ← List.length_pos_iff, ← hrows.length_eq]
      exact List.length_pos_of_ne_nil hdocs
    have hheaded : headed layout t.rows = t.header :: t.rows := by simp [headed, hne, hheader]
    refine ⟨t.rows, hrows, hheaded ▸ hlengths, ?_⟩
    rw [hheaded]
    exact String.toList_ofList

theorem unambiguous_of_separating {delimiter : Option String} {terminator : String}
    (hsep : Separating (SeparatedValues.separator delimiter) terminator.toList) : Unambiguous terminator delimiter := by
  rintro layout docs docs' body rfl rfl hkeys h h'
  obtain ⟨rows, hrows, hlengths, hbody⟩ := exists_rows_of_render hkeys h
  obtain ⟨rows', hrows', hlengths', hbody'⟩ := exists_rows_of_render hkeys h'
  have hheaded := flatMap_writeRow_inj hsep (separator_ne_quote _) (List.length_pos_of_ne_nil hkeys) hlengths hlengths'
    (hbody.symm.trans hbody')
  rw [← headed_inj hheaded] at hrows'
  exact ⟨rows, hrows, hrows'⟩

/-- A document with one leaf, a text. -/
def labeled (key : String) (text : List Char) : Document := .object [(key, .scalar (.string (String.ofList text)))]

theorem hasCell_labeled {key cell : String} {text : List Char} (h : (labeled key text).HasCell key cell) :
    cell = String.ofList text :=
  h.1 (key, .string (String.ofList text)) List.mem_cons_self rfl

theorem eq_of_sameCells_labeled {key : String} {first first' : List Char}
    (h : SameCells [key] (labeled key first :: docs) (labeled key first' :: docs')) : first = first' := by
  obtain ⟨rows, hrows, hrows'⟩ := h
  obtain ⟨row, _, hrow, _, rfl⟩ := List.forall₂_cons_left_iff.mp hrows
  obtain ⟨cell, _, hcell, _, rfl⟩ := List.forall₂_cons_left_iff.mp hrow
  have hcell' := (List.forall₂_cons.mp (List.forall₂_cons.mp hrows').1).1
  exact String.ofList_injective ((hasCell_labeled hcell).symm.trans (hasCell_labeled hcell'))

theorem render_labeled (layout : Layout) (hkeys : layout.keys = ["k"]) (hlabels : layout.labels = [])
    (first second : List Char) :
    render layout [labeled "k" first, labeled "k" second] =
      .ok (write (SeparatedValues.separator layout.delimiter) layout.lineTerminator
        ⟨["k"], [[String.ofList first], [String.ofList second]]⟩) := by
  rw [render, hkeys, hlabels]
  rfl

theorem escape_of_length_lt (hforcing : ∀ c ∈ terminator, c ∉ forcing separator) (hsub : cell ⊆ terminator)
    (hlen : cell.length < terminator.length) : escape separator terminator cell = cell := by
  have hne : terminator ≠ [] := List.ne_nil_of_length_pos (Nat.lt_of_le_of_lt (Nat.zero_le _) hlen)
  have hplain := (needsQuotes_eq_false_iff hne).mpr
    ⟨fun c hc => hforcing c (hsub hc), fun hin => Nat.not_lt_of_le hin.length_le hlen⟩
  rw [escape, hplain, if_neg Bool.false_ne_true]

/-- Two occurrences of a text that overlaps itself, the second one before the first one ends. -/
theorem exists_overlap {text : List Char} (h : Bordered text) :
    ∃ front back, front ++ text = text ++ back ∧ front ≠ [] ∧ (front ⊆ text ∧ back ⊆ text) ∧
      front.length < text.length ∧ back.length < text.length := by
  obtain ⟨n, hn, hpos, front, hfront⟩ := h
  have hlen := congrArg List.length hfront
  rw [List.length_append, List.length_take, min_eq_left hn.le] at hlen
  refine ⟨front, text.drop n, ?_, ?_, ⟨?_, List.drop_subset n text⟩, by omega, by rw [List.length_drop]; omega⟩
  · conv_lhs => rw [← List.take_append_drop n text, ← List.append_assoc, hfront]
  · rintro rfl
    rw [List.length_nil] at hlen
    omega
  · exact hfront ▸ List.subset_append_left front _

/-- With a terminator that overlaps itself, what it starts with can stand in a cell or be part of the
terminator before, so two rows are written the same in two ways. -/
theorem not_unambiguous_of_bordered {terminator : String} {delimiter : Option String}
    (hforcing : ∀ c ∈ terminator.toList, c ∉ forcing (SeparatedValues.separator delimiter))
    (hborder : Bordered terminator.toList) : ¬ Unambiguous terminator delimiter := by
  obtain ⟨front, back, hoverlap, hne, ⟨hfront, hback⟩, hltFront, hltBack⟩ := exists_overlap hborder
  have hnil := escape_of_length_lt hforcing (List.nil_subset _) (Nat.lt_of_le_of_lt (Nat.zero_le _) hltFront)
  have hwrite : write (SeparatedValues.separator delimiter) terminator
        ⟨["k"], [[String.ofList front], [String.ofList []]]⟩ =
      write (SeparatedValues.separator delimiter) terminator
        ⟨["k"], [[String.ofList []], [String.ofList back]]⟩ := by
    simp only [write, writeRow, List.flatMap_cons, List.flatMap_nil, List.map_cons, List.map_nil,
      List.intercalate_singleton, String.toList_ofList, hnil, escape_of_length_lt hforcing hfront hltFront,
      escape_of_length_lt hforcing hback hltBack, List.append_nil, List.nil_append]
    rw [hoverlap, List.append_assoc terminator.toList]
  intro hall
  let layout : Layout := ⟨["k"], [], delimiter, false, terminator, ""⟩
  have hsame := hall layout [labeled "k" front, labeled "k" []] [labeled "k" [], labeled "k" back]
    _ rfl rfl (List.cons_ne_nil _ _) (render_labeled layout rfl rfl front [])
    ((render_labeled layout rfl rfl [] back).trans (congrArg Except.ok hwrite.symm))
  exact hne (eq_of_sameCells_labeled hsame)

/-- With a terminator that the settings accept and that starts with no quote, bodies tell the cells
exactly if it forces cells into quotes or cannot overlap itself. -/
theorem unambiguous_iff (s : Settings) (delimiter : Option String) (hs : s.validate = .ok ())
    (hquote : s.lineTerminator.toList.head? ≠ some '"') :
    Unambiguous s.lineTerminator delimiter ↔
      (∃ c ∈ s.lineTerminator.toList, c ∈ forcing (SeparatedValues.separator delimiter)) ∨
        ¬ Bordered s.lineTerminator.toList := by
  have hne : s.lineTerminator.toList ≠ [] := by
    intro hnil
    simp [Settings.validate, String.toList_eq_nil_iff.mp hnil] at hs
  constructor
  · intro hall
    by_contra hno
    rw [not_or, not_not] at hno
    exact not_unambiguous_of_bordered (fun c hc hforcing => hno.1 ⟨c, hc, hforcing⟩) hno.2 hall
  · exact fun hapart => unambiguous_of_separating ⟨hne, hquote, hapart⟩

/-- Rows with an empty line between them: the terminator overlaps itself, but line breaks put cells
into quotes. -/
theorem unambiguous_blank_line :
    let s : Settings := { lineTerminator := "\n\n" }
    (s.validate = .ok () ∧ s.lineTerminator.toList.head? ≠ some '"' ∧ Bordered s.lineTerminator.toList) ∧
      Unambiguous "\n\n" none := by
  intro s
  have hs : s.validate = .ok () := by decide
  have hquote : s.lineTerminator.toList.head? ≠ some '"' := by decide
  refine ⟨⟨hs, hquote, by decide⟩, ?_⟩
  exact (unambiguous_iff s none hs hquote).mpr (.inl ⟨'\n', by decide, by decide⟩)

/-- Two bars end a row and one bar may stand in a cell: at the end of a row it cannot be told from one
at the start of the next row. -/
theorem render_overlapping :
    let s : Settings := { lineTerminator := "||" }
    let layout : Layout := { Layout.ofSettings s with keys := ["k"] }
    let docs : List Document := [.object [("k", .scalar (.string "x|"))], .object [("k", .scalar (.string ""))]]
    let docs' : List Document := [.object [("k", .scalar (.string "x"))], .object [("k", .scalar (.string "|"))]]
    s.validate = .ok () ∧ render layout docs = .ok "k||x|||||" ∧ render layout docs' = .ok "k||x|||||" ∧
      ¬ SameCells layout.keys docs docs' := by
  intro s layout docs docs'
  have hwrite : write ';' "||" ⟨["k"], [["x|"], [""]]⟩ = "k||x|||||" := by cbv
  have hwrite' : write ';' "||" ⟨["k"], [["x"], ["|"]]⟩ = "k||x|||||" := by cbv
  refine ⟨by decide, ?_, ?_, fun hsame => ?_⟩
  · exact (render_labeled layout rfl rfl ['x', '|'] []).trans (congrArg Except.ok hwrite)
  · exact (render_labeled layout rfl rfl ['x'] ['|']).trans (congrArg Except.ok hwrite')
  · have hfirst : ['x', '|'] = ['x'] := eq_of_sameCells_labeled hsame
    exact absurd hfirst (by decide)

end DocExport.SeparatedValues
