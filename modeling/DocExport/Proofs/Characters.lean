import DocExport.Document.Leaves
import DocExport.Proofs.Elements
import DocExport.Proofs.Spelling

/-! Which bodies are well-formed XML 1.0. The names that keys may be agree with the production Name
but for a few letters and numerals, and a body has a character that XML forbids only where a string
has it. -/
namespace DocExport

namespace Text

/-- Whether a code point lies in one of the closed ranges. -/
def inRanges (ranges : List (Nat × Nat)) (n : Nat) : Bool := ranges.any fun range => range.1 ≤ n && n ≤ range.2

/-- Each of the ranges lies in one of the others. -/
def covers (outer inner : List (Nat × Nat)) : Bool :=
  inner.all fun range => outer.any fun whole => whole.1 ≤ range.1 && range.2 ≤ whole.2

/-- No range meets one of the others. -/
def apart (first second : List (Nat × Nat)) : Bool :=
  first.all fun range => second.all fun other => range.2 < other.1 || other.2 < range.1

variable {outer inner first second : List (Nat × Nat)} {n : Nat}

theorem inRanges_of_covers (h : covers outer inner) (hn : inRanges inner n) : inRanges outer n := by
  simp only [covers, inRanges, List.all_eq_true, List.any_eq_true, Bool.and_eq_true, decide_eq_true_eq] at h hn ⊢
  obtain ⟨range, hrange, hlow, hhigh⟩ := hn
  obtain ⟨whole, hwhole, hfrom, hto⟩ := h range hrange
  exact ⟨whole, hwhole, Nat.le_trans hfrom hlow, Nat.le_trans hhigh hto⟩

end Text

namespace Markup
open Text
variable {c : Char} {name : String}

/-- The production Char of XML 1.0. -/
def charRanges : List (Nat × Nat) :=
  [(0x9, 0xA), (0xD, 0xD), (0x20, 0xD7FF), (0xE000, 0xFFFD), (0x10000, 0x10FFFF)]

def isXmlChar (c : Char) : Bool := inRanges charRanges c.toNat

/-- Ranges with all letters, numerals and marks in them have the characters of keys in them. -/
theorem inRanges_of_isKeyChar {ranges : List (Nat × Nat)} (halphabetic : covers ranges alphabeticRanges)
    (hnumeral : covers ranges numeralRanges) (hmarks : covers ranges [(0x2D, 0x2E), (0x5F, 0x5F)])
    (h : Element.isKeyChar c) : inRanges ranges c.toNat := by
  simp only [Element.isKeyChar, Bool.or_eq_true, decide_eq_true_eq] at h
  rcases h with (((hc | hc) | rfl) | rfl) | rfl
  · exact inRanges_of_covers halphabetic hc
  · exact inRanges_of_covers hnumeral hc
  · exact inRanges_of_covers hmarks (by decide)
  · exact inRanges_of_covers hmarks (by decide)
  · exact inRanges_of_covers hmarks (by decide)

mutual

/-- The text of a node without its tags. -/
def Node.characters : Node → List Char
  | .text content => content.toList
  | .empty _ => []
  | .element _ content => forestCharacters content

def forestCharacters : List Node → List Char
  | [] => []
  | node :: rest => node.characters ++ forestCharacters rest

end

theorem forestCharacters_append (front back : List Node) :
    forestCharacters (front ++ back) = forestCharacters front ++ forestCharacters back := by
  induction front with
  | nil => rw [List.nil_append, forestCharacters, List.nil_append]
  | cons node front ih => rw [List.cons_append, forestCharacters, forestCharacters, ih, List.append_assoc]

theorem forestCharacters_textNodes (content : List Char) : forestCharacters (textNodes content) = content := by
  unfold textNodes
  split
  · rename_i hempty
    rw [List.isEmpty_iff.mp hempty, forestCharacters]
  · rw [forestCharacters, forestCharacters, Node.characters, List.append_nil, String.toList_ofList]

end Markup

namespace Document
open Markup

mutual

/-- The text of the elements of a document is that of its leaves, in order. -/
theorem characters_elements (name : String) (d : Document) :
    forestCharacters (d.elements name) = d.leaves.flatMap fun leaf => leaf.2.text.toList := by
  match d with
  | .scalar value =>
    rw [leaves, List.flatMap_singleton]
    cases value with
    | null => rfl
    | bool | number | string =>
      simp only [elements, forestCharacters, Node.characters, forestCharacters_textNodes, List.append_nil]
  | .array items =>
    rw [elements, leaves]
    exact characters_itemElements name 0 items
  | .object members =>
    rw [elements, leaves, forestCharacters, forestCharacters, List.append_nil, Node.characters]
    exact characters_memberElements members

theorem characters_itemElements (name : String) (position : Nat) (items : List Document) :
    forestCharacters (itemElements name items) =
      (itemLeaves position items).flatMap fun leaf => leaf.2.text.toList := by
  match items with
  | [] => rw [itemElements, itemLeaves, forestCharacters, List.flatMap_nil]
  | item :: items =>
    rw [itemElements, itemLeaves, forestCharacters_append, List.flatMap_append, List.flatMap_map,
      characters_elements name item, characters_itemElements name (position + 1) items]

theorem characters_memberElements (members : List Member) :
    forestCharacters (memberElements members) =
      (memberLeaves members).flatMap fun leaf => leaf.2.text.toList := by
  match members with
  | [] => rw [memberElements, memberLeaves, forestCharacters, List.flatMap_nil]
  | (key, value) :: members =>
    rw [memberElements, memberLeaves, forestCharacters_append, List.flatMap_append, List.flatMap_map,
      characters_elements key value, characters_memberElements members]

end

end Document

namespace Markup
open Text
variable {c : Char} {name : String}

theorem isXmlChar_of_isKeyChar (h : Element.isKeyChar c) : isXmlChar c :=
  inRanges_of_isKeyChar (by decide +kernel) (by decide +kernel) (by decide) h

theorem isXmlChar_of_mem_name (h : Element.isName name) : ∀ c ∈ name.toList, isXmlChar c :=
  fun _ hc => isXmlChar_of_isKeyChar (Element.isKeyChar_of_mem h hc)

theorem isXmlChar_of_mem_startTag (h : Element.isName name) : ∀ c ∈ Element.startTag name, isXmlChar c := by
  rw [Element.startTag, List.cons_append, List.forall_mem_cons, List.forall_mem_append]
  exact ⟨by decide, isXmlChar_of_mem_name h, List.all_eq_true.mp (by decide)⟩

theorem isXmlChar_of_mem_endTag (h : Element.isName name) : ∀ c ∈ Element.endTag name, isXmlChar c := by
  rw [Element.endTag, List.cons_append, List.cons_append, List.forall_mem_cons, List.forall_mem_cons,
    List.forall_mem_append]
  exact ⟨by decide, by decide, isXmlChar_of_mem_name h, List.all_eq_true.mp (by decide)⟩

theorem forall_isXmlChar_flatMap_escapeChar_iff (text : List Char) :
    (∀ c ∈ text.flatMap Element.escapeChar, isXmlChar c) ↔ ∀ c ∈ text, isXmlChar c := by
  have hescape : ∀ c, (∀ e ∈ Element.escapeChar c, isXmlChar e) ↔ isXmlChar c := by
    intro c
    unfold Element.escapeChar
    split_ifs with hamp hlt hgt hquot hapos
    · exact iff_of_true (List.all_eq_true.mp (by decide)) (hamp ▸ by decide)
    · exact iff_of_true (List.all_eq_true.mp (by decide)) (hlt ▸ by decide)
    · exact iff_of_true (List.all_eq_true.mp (by decide)) (hgt ▸ by decide)
    · exact iff_of_true (List.all_eq_true.mp (by decide)) (hquot ▸ by decide)
    · exact iff_of_true (List.all_eq_true.mp (by decide)) (hapos ▸ by decide)
    · exact List.forall_mem_singleton
  rw [List.forall_mem_flatMap]
  exact forall₂_congr fun c _ => hescape c

mutual

/-- An element has a forbidden character only if its text has one. -/
theorem forall_isXmlChar_chars_iff (element : Element) (h : ∀ name ∈ element.node.names, Element.isName name) :
    (∀ c ∈ element.chars, isXmlChar c) ↔ ∀ c ∈ element.node.characters, isXmlChar c := by
  match element with
  | .empty name =>
    rw [Element.node, Node.names, List.forall_mem_singleton] at h
    rw [Element.chars, Element.node, Node.characters, List.cons_append, List.forall_mem_cons,
      List.forall_mem_append]
    exact iff_of_true ⟨by decide, isXmlChar_of_mem_name h, List.all_eq_true.mp (by decide)⟩ (List.forall_mem_nil _)
  | .text name text =>
    rw [Element.node, Node.names, forestNames_textNodes, List.forall_mem_singleton] at h
    rw [Element.chars, Element.node, Node.characters, forestCharacters_textNodes, List.forall_mem_append,
      List.forall_mem_append, and_iff_left (isXmlChar_of_mem_endTag h), and_iff_right (isXmlChar_of_mem_startTag h),
      forall_isXmlChar_flatMap_escapeChar_iff]
  | .parent name children =>
    rw [Element.node, Node.names, List.forall_mem_cons] at h
    rw [Element.chars, Element.node, Node.characters, List.forall_mem_append, List.forall_mem_append,
      and_iff_left (isXmlChar_of_mem_endTag h.1), and_iff_right (isXmlChar_of_mem_startTag h.1),
      forall_isXmlChar_forestChars_iff children h.2]

theorem forall_isXmlChar_forestChars_iff (forest : List Element)
    (h : ∀ name ∈ forestNames (Element.forestNodes forest), Element.isName name) :
    (∀ c ∈ Element.forestChars forest, isXmlChar c) ↔
      ∀ c ∈ forestCharacters (Element.forestNodes forest), isXmlChar c := by
  match forest with
  | [] => rw [Element.forestChars, Element.forestNodes, forestCharacters]
  | element :: rest =>
    rw [Element.forestNodes, forestNames, List.forall_mem_append] at h
    rw [Element.forestChars, Element.forestNodes, forestCharacters, List.forall_mem_append, List.forall_mem_append,
      forall_isXmlChar_chars_iff element h.1, forall_isXmlChar_forestChars_iff rest h.2]

end

end Markup

namespace Element
open Document Markup
variable {docs : List Document} {body : String}

end Element
end DocExport
