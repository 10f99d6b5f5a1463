import DocExport.Text.ItemList
import Mathlib.Data.List.DropRight

/-! Lists between commas. A text has the items that it holds, in their order, whatever white space is around them and
however many blank pieces are between them; and every text holds its items that way. -/
namespace DocExport.Text

/-- The characters with the property White_Space, one by one. -/
def whiteSpace : List Char :=
  ['\t', '\n', '\x0b', '\x0c', '\r', ' ', '\u0085', '\u00a0', '\u1680', '\u2000', '\u2001', '\u2002', '\u2003', '\u2004',
   '\u2005', '\u2006', '\u2007', '\u2008', '\u2009', '\u200a', '\u2028', '\u2029', '\u202f', '\u205f', '\u3000']

/-- White space only, or nothing at all. -/
def IsPadding (text : List Char) : Prop := ∀ c ∈ text, c ∈ whiteSpace

-- by the characters of the text: the instance for all characters would try each that there is
instance (text : List Char) : Decidable (IsPadding text) := List.decidableBAll (· ∈ whiteSpace) text

/-- No white space at either end. White space inside makes no difference. -/
structure Trimmed (text : List Char) : Prop where
  first : ∀ c ∈ text.head?, c ∉ whiteSpace
  last : ∀ c ∈ text.getLast?, c ∉ whiteSpace

instance (text : List Char) : Decidable (Trimmed text) :=
  @decidable_of_iff _ (_ ∧ _) ⟨fun h => ⟨h.1, h.2⟩, fun h => ⟨h.first, h.last⟩⟩
    (@instDecidableAnd _ _ (Option.decidableForallMem text.head?) (Option.decidableForallMem text.getLast?))

/-- What a list can have as an item. -/
structure IsItem (text : String) : Prop where
  nonempty : text ≠ ""
  no_comma : ',' ∉ text.toList
  trimmed : Trimmed text.toList

instance (text : String) : Decidable (IsItem text) :=
  decidable_of_iff (_ ∧ _ ∧ _) ⟨fun h => ⟨h.1, h.2.1, h.2.2⟩, fun h => ⟨h.nonempty, h.no_comma, h.trimmed⟩⟩

/-- The pieces hold the items one by one, each with any white space around it, and any blank pieces in between. -/
inductive Holds : List String → List String → Prop where
  | nil : Holds [] []
  | blank {pieces list : List String} (piece : String) :
    IsPadding piece.toList → Holds pieces list → Holds (piece :: pieces) list
  | item {pieces list : List String} (front item back : String) :
    IsPadding front.toList → IsPadding back.toList → Holds pieces list →
      Holds ((front ++ item ++ back) :: pieces) (item :: list)

variable {c : Char} {text item front back piece : List Char}

/-- The ranges of the table have these characters and no others. -/
theorem isBlank_iff : isBlank c = true ↔ c ∈ whiteSpace := by
  have hpoints : whiteSpace.map Char.toNat =
      blankRanges.flatMap fun range => List.range' range.1 (range.2 + 1 - range.1) := by decide
  have hmem : c.toNat ∈ whiteSpace.map Char.toNat ↔ c ∈ whiteSpace :=
    List.mem_map_of_injective fun _ _ h => Char.toNat_inj.mp h
  rw [← hmem, hpoints, isBlank, List.any_eq_true, List.mem_flatMap]
  refine exists_congr fun range => and_congr_right fun _ => ?_
  rw [List.mem_range'_1, Bool.and_eq_true, decide_eq_true_eq, decide_eq_true_eq]
  omega

theorem isPadding_iff : IsPadding text ↔ ∀ c ∈ text, isBlank c = true := by
  simp only [IsPadding, isBlank_iff]

theorem comma_not_mem_of_isPadding (h : IsPadding text) : ',' ∉ text := fun hcomma => absurd (h ',' hcomma) (by decide)

theorem dropWhile_isBlank_eq_self (h : ∀ c ∈ text.head?, c ∉ whiteSpace) : text.dropWhile isBlank = text := by
  cases text with
  | nil => rfl
  | cons first rest => exact List.dropWhile_cons_of_neg fun hblank => h first rfl (isBlank_iff.mp hblank)

theorem head?_dropWhile_isBlank (text : List Char) : ∀ c ∈ (text.dropWhile isBlank).head?, c ∉ whiteSpace := by
  intro c hc hspace
  have hstop := List.head?_dropWhile_not isBlank text
  rw [Option.mem_def.mp hc] at hstop
  exact absurd (isBlank_iff.mpr hspace) (Bool.not_eq_true _ ▸ hstop)

/-- Trimming takes off all the white space in front and behind, and nothing of what it finds there. -/
theorem trim_of_trimmed (h : Trimmed item) (hfront : IsPadding front) (hback : IsPadding back) :
    trim (front ++ item ++ back) = item := by
  rw [trim, List.append_assoc, List.dropWhile_append_of_pos (isPadding_iff.mp hfront)]
  cases item with
  | nil =>
    -- the white space behind follows that in front at once, and all of it goes from the left
    rw [List.nil_append, List.dropWhile_eq_nil_iff.mpr (isPadding_iff.mp hback)]
    rfl
  | cons first rest =>
    have hleft : (first :: rest ++ back).dropWhile isBlank = first :: rest ++ back := dropWhile_isBlank_eq_self h.first
    have hright : (first :: rest).reverse.dropWhile isBlank = (first :: rest).reverse :=
      dropWhile_isBlank_eq_self (List.head?_reverse ▸ h.last)
    have hback' : ∀ c ∈ back.reverse, isBlank c = true := fun c hc => isPadding_iff.mp hback c (List.mem_reverse.mp hc)
    rw [hleft, List.reverse_append, List.dropWhile_append_of_pos hback', hright, List.reverse_reverse]

theorem trim_append_rtakeWhile (text : List Char) :
    trim text ++ (text.dropWhile isBlank).rtakeWhile isBlank = text.dropWhile isBlank :=
  List.rdropWhile_append_rtakeWhile

theorem trimmed_trim (text : List Char) : Trimmed (trim text) where
  first := by
    intro c hc
    refine head?_dropWhile_isBlank text c ?_
    rw [← trim_append_rtakeWhile, List.head?_append, Option.mem_def.mp hc, Option.some_or]
    rfl
  last := by
    rw [trim, List.getLast?_reverse]
    exact head?_dropWhile_isBlank _

theorem exists_trim_padding (text : List Char) :
    ∃ front back, IsPadding front ∧ IsPadding back ∧ text = front ++ trim text ++ back := by
  refine ⟨text.takeWhile isBlank, (text.dropWhile isBlank).rtakeWhile isBlank, ?_, ?_, ?_⟩
  · exact isPadding_iff.mpr fun c => List.mem_takeWhile_imp
  · exact isPadding_iff.mpr fun c => List.mem_rtakeWhile_imp
  · rw [List.append_assoc, trim_append_rtakeWhile, List.takeWhile_append_dropWhile]

theorem trim_eq_nil_iff : trim piece = [] ↔ IsPadding piece := by
  constructor
  · intro h
    obtain ⟨front, back, hfront, hback, hpiece⟩ := exists_trim_padding piece
    rw [h, List.append_nil] at hpiece
    exact hpiece ▸ List.forall_mem_append.mpr ⟨hfront, hback⟩
  · intro h
    have htrim : trim (piece ++ [] ++ []) = [] := trim_of_trimmed ⟨nofun, nofun⟩ h nofun
    rwa [List.append_nil, List.append_nil] at htrim

variable {pieces list : List String}

/-- The items of a text that is already cut at its commas. -/
def pieceItems (pieces : List (List Char)) : List String := ((pieces.map trim).filter (!·.isEmpty)).map String.ofList

theorem pieceItems_of_isPadding (h : IsPadding piece) (pieces : List (List Char)) :
    pieceItems (piece :: pieces) = pieceItems pieces := by
  simp [pieceItems, trim_eq_nil_iff.mpr h]

theorem pieceItems_of_trim_ne_nil (h : trim piece ≠ []) (pieces : List (List Char)) :
    pieceItems (piece :: pieces) = String.ofList (trim piece) :: pieceItems pieces := by
  simp [pieceItems, h]

/-- Pieces that hold items have these and no others. -/
theorem pieceItems_of_holds (h : Holds pieces list) (hitems : ∀ item ∈ list, IsItem item) :
    pieceItems (pieces.map String.toList) = list := by
  induction h with
  | nil => rfl
  | blank piece hblank _ ih => rw [List.map_cons, pieceItems_of_isPadding hblank, ih hitems]
  | item front item back hfront hback _ ih =>
    obtain ⟨hitem, hlist⟩ := List.forall_mem_cons.mp hitems
    have htrim : trim (front ++ item ++ back).toList = item.toList := by
      rw [String.toList_append, String.toList_append]
      exact trim_of_trimmed hitem.trimmed hfront hback
    have hfilled : trim (front ++ item ++ back).toList ≠ [] := by
      rw [htrim]
      simpa using hitem.nonempty
    rw [List.map_cons, pieceItems_of_trim_ne_nil hfilled, htrim, String.ofList_toList, ih hlist]

/-- Whatever pieces there are, they hold their items. -/
theorem holds_pieceItems (pieces : List (List Char)) : Holds (pieces.map String.ofList) (pieceItems pieces) := by
  induction pieces with
  | nil => exact .nil
  | cons piece pieces ih =>
    rw [List.map_cons]
    by_cases h : trim piece = []
    · have hblank : IsPadding piece := trim_eq_nil_iff.mp h
      rw [pieceItems_of_isPadding hblank]
      exact .blank _ (by rwa [String.toList_ofList]) ih
    · obtain ⟨front, back, hfront, hback, hpiece⟩ := exists_trim_padding piece
      have htext : String.ofList piece = String.ofList front ++ String.ofList (trim piece) ++ String.ofList back := by
        rw [← String.ofList_append, ← String.ofList_append, ← hpiece]
      rw [pieceItems_of_trim_ne_nil h, htext]
      exact .item _ _ _ (by rwa [String.toList_ofList]) (by rwa [String.toList_ofList]) ih

theorem comma_not_mem_of_holds (h : Holds pieces list) (hitems : ∀ item ∈ list, ',' ∉ item.toList) :
    ∀ piece ∈ pieces, ',' ∉ piece.toList := by
  induction h with
  | nil => exact List.forall_mem_nil _
  | blank piece hblank _ ih => exact List.forall_mem_cons.mpr ⟨comma_not_mem_of_isPadding hblank, ih hitems⟩
  | item front item back hfront hback _ ih =>
    obtain ⟨hitem, hlist⟩ := List.forall_mem_cons.mp hitems
    refine List.forall_mem_cons.mpr ⟨?_, ih hlist⟩
    rw [String.toList_append, String.toList_append, List.mem_append, List.mem_append]
    rintro ((h | h) | h)
    · exact comma_not_mem_of_isPadding hfront h
    · exact hitem h
    · exact comma_not_mem_of_isPadding hback h

theorem not_mem_of_mem_splitOn (separator : Char) (text : List Char) :
    ∀ piece ∈ text.splitOn separator, separator ∉ piece := by
  induction text with
  | nil => simp
  | cons c text ih =>
    obtain ⟨first, rest, hsplit⟩ := List.exists_cons_of_ne_nil (List.splitOn_ne_nil separator text)
    rw [hsplit] at ih
    obtain ⟨hfirst, hrest⟩ := List.forall_mem_cons.mp ih
    rw [List.splitOn_cons_eq_if_modifyHead, hsplit]
    split
    · exact List.forall_mem_cons.mpr ⟨List.not_mem_nil, ih⟩
    · rename_i hc
      refine List.forall_mem_cons.mpr ⟨?_, hrest⟩
      rw [List.mem_cons, not_or]
      exact ⟨fun h => hc (beq_iff_eq.mpr h.symm), hfirst⟩

theorem isItem_of_mem_items {text item : String} (h : item ∈ items text) : IsItem item := by
  simp only [items, List.mem_map, List.mem_filter] at h
  obtain ⟨_, ⟨⟨piece, hpiece, rfl⟩, hfilled⟩, rfl⟩ := h
  obtain ⟨front, back, -, -, htext⟩ := exists_trim_padding piece
  have hsub : trim piece ⊆ piece := by
    intro c hc
    rw [htext]
    exact List.mem_append_left _ (List.mem_append_right _ hc)
  constructor
  case nonempty => simpa using hfilled
  case no_comma =>
    rw [String.toList_ofList]
    exact fun hcomma => not_mem_of_mem_splitOn ',' text.toList piece hpiece (hsub hcomma)
  case trimmed =>
    rw [String.toList_ofList]
    exact trimmed_trim piece

theorem items_intercalate (h : ∀ piece ∈ pieces, ',' ∉ piece.toList) :
    items (",".intercalate pieces) = pieceItems (pieces.map String.toList) := by
  cases pieces with
  | nil => rfl
  | cons piece pieces =>
    have hsplit : (",".intercalate (piece :: pieces)).toList.splitOn ',' = (piece :: pieces).map String.toList := by
      rw [String.toList_intercalate]
      exact List.splitOn_intercalate ',' (List.forall_mem_map.mpr h) (List.cons_ne_nil _ _)
    rw [items, hsplit]
    rfl

/-- The items of a text are the one list of items of which it can be made by adding white space, blank pieces and
commas. -/
theorem items_eq_iff {text : String} :
    items text = list ↔ (∀ item ∈ list, IsItem item) ∧ ∃ pieces, Holds pieces list ∧ text = ",".intercalate pieces := by
  constructor
  · rintro rfl
    refine ⟨fun _ => isItem_of_mem_items, _, holds_pieceItems (text.toList.splitOn ','), ?_⟩
    have hpieces : [','].intercalate (text.toList.splitOn ',') = text.toList := List.intercalate_splitOn ','
    rw [← String.toList_inj, String.toList_intercalate, List.map_map]
    simp [hpieces]
  · rintro ⟨hitems, pieces, hholds, rfl⟩
    rw [items_intercalate (comma_not_mem_of_holds hholds fun item hitem => (hitems item hitem).no_comma)]
    exact pieceItems_of_holds hholds hitems

/-- Items with nothing around them and nothing in between. -/
theorem holds_self (list : List String) : Holds list list := by
  induction list with
  | nil => exact .nil
  | cons item list ih =>
    have hplain : Holds (("" ++ item ++ "") :: list) (item :: list) := .item "" item "" nofun nofun ih
    rwa [String.empty_append, String.append_empty] at hplain

/-- The items of a text are not empty, have no comma and no white space at their ends; and any such items come back
from the text in which they are joined by commas, whatever white space is around them and whatever blank pieces are
in between. So joining the items of a text and taking them apart again changes nothing. -/
theorem items_joined (text : String) :
    (∀ item ∈ items text, IsItem item) ∧
      (∀ pieces list, (∀ item ∈ list, IsItem item) → Holds pieces list → items (",".intercalate pieces) = list) ∧
      items (",".intercalate (items text)) = items text := by
  have hitems : ∀ item ∈ items text, IsItem item := fun _ => isItem_of_mem_items
  refine ⟨hitems, fun pieces list hlist hholds => ?_, ?_⟩
  · exact items_eq_iff.mpr ⟨hlist, pieces, hholds, rfl⟩
  · exact items_eq_iff.mpr ⟨hitems, items text, holds_self _, rfl⟩

/-- White space beyond ASCII around the items, inside of one and in a piece of its own. A space of no width is no
white space, so it makes an item. -/
theorem items_joined_padded :
    let list := ["a\u3000 b", "\u200b", "c"]
    let pieces := ["", "\u00a0" ++ "a\u3000 b" ++ "\u2028\x0b", "\t\u0085 ", "" ++ "\u200b" ++ "", " " ++ "c" ++ ""]
    ((∀ item ∈ list, IsItem item) ∧ Holds pieces list) ∧ items (",".intercalate pieces) = list := by
  intro list pieces
  have hlist : ∀ item ∈ list, IsItem item := by decide
  have hholds : Holds pieces list :=
    .blank _ (by decide) <| .item _ _ _ (by decide) (by decide) <| .blank _ (by decide) <|
      .item _ _ _ (by decide) (by decide) <| .item _ _ _ (by decide) (by decide) .nil
  exact ⟨⟨hlist, hholds⟩, (items_joined "").2.1 pieces list hlist hholds⟩

example : items "a.b, c.1,," = ["a.b", "c.1"] := by decide

end DocExport.Text
