import Mathlib.Logic.Relation
import DocExport.Proofs.Address
import DocExport.Proofs.Path

/-! Reading a path as a walk from node to node, one segment a step. Whether the segments are cut off
the text on the way or are all known before makes no difference. A walk ends where no segment is left,
where a segment leads to nothing, or at an array that is given no index. -/
namespace DocExport.Document
open DocExport.Path
variable {node : Document} {segment : String} {rest : List String} {trailingDot : Bool}
  {s t : Document × List String}

/-- The child that a segment leads to, `path` being the path from its node on. -/
def childAt (segment : String) (path : Path) : Document → Except AddressFault (Option Document)
  | .object members => .ok (members.lookup segment)
  | .array items => (arrayIndex segment path).map (items[·]?)
  | .scalar _ => .ok none

/-- Reading along a path text. Its first segment is cut off and applied to the node, and the text behind
the dot is read from the child. -/
def readText (d : Document) (text : String) : Except AddressFault (Option Document) :=
  match _h : cut text with
  | (head, none) => d.childAt head (ofText text)
  | (head, some rest) =>
    match d.childAt head (ofText text) with
    | .error fault => .error fault
    | .ok none => .ok none
    | .ok (some child) => child.readText rest
termination_by text.toList.length
decreasing_by exact length_of_cut_eq_some _h

/-- A segment that an array takes: one digit or more and nothing else, of a value that fits a word. -/
def IsWordIndex (segment : String) : Prop := isIndex segment ∧ indexValue segment < indexBound

/-- One step of a walk, from a node with segments to go to its child behind the first of them. -/
inductive Step : Document × List String → Document × List String → Prop where
  | member {members : List Member} {key : String} {child : Document} {rest : List String} :
    members.lookup key = some child → Step (.object members, key :: rest) (child, rest)
  | item {items : List Document} {segment : String} {child : Document} {rest : List String} :
    IsWordIndex segment → items[indexValue segment]? = some child →
    Step (.array items, segment :: rest) (child, rest)

/-- Any number of steps. -/
abbrev Walk : Document × List String → Document × List String → Prop := Relation.ReflTransGen Step

/-- A segment that leads to nothing: a member that is missing, an item past the end, or anything inside
of a scalar. -/
inductive Misses : Document → String → Prop where
  | member {members : List Member} {key : String} : members.lookup key = none → Misses (.object members) key
  | item {items : List Document} {segment : String} :
    IsWordIndex segment → items[indexValue segment]? = none → Misses (.array items) segment
  | scalar {value : Scalar} {segment : String} : Misses (.scalar value) segment

theorem follow_cons_eq_childAt (trailingDot : Bool) (segment : String) (rest : List String) (d : Document) :
    follow trailingDot (segment :: rest) d =
      match d.childAt segment ⟨segment :: rest, trailingDot⟩ with
      | .error fault => .error fault
      | .ok none => .ok none
      | .ok (some child) => follow trailingDot rest child := by
  cases d with
  | scalar value => rfl
  | array items =>
    simp only [follow, childAt]
    cases arrayIndex segment ⟨segment :: rest, trailingDot⟩ with
    | error fault => rfl
    | ok position => cases hitem : items[position]? <;> simp only [Except.map, hitem]
  | object members =>
    simp only [follow, childAt]
    cases members.lookup segment <;> rfl

/-- Cutting one segment off the text after the other reads what the list of all segments leads to. -/
theorem readText_eq_get (d : Document) (text : String) : d.readText text = d.get (ofText text) := by
  fun_induction readText d text with
  | case1 d text head h =>
    rw [get, segments_of_cut_eq_none h, follow_cons_eq_childAt, ← segments_of_cut_eq_none h]
    cases d.childAt head (ofText text) with
    | error fault => rfl
    | ok child => cases child <;> rfl
  | case2 d text head rest h fault hchild =>
    rw [ofText_of_cut_eq_some h] at hchild
    rw [get, ofText_of_cut_eq_some h, follow_cons_eq_childAt, hchild]
  | case3 d text head rest h hchild =>
    rw [ofText_of_cut_eq_some h] at hchild
    rw [get, ofText_of_cut_eq_some h, follow_cons_eq_childAt, hchild]
  | case4 d text head rest h child hchild ih =>
    rw [ofText_of_cut_eq_some h] at hchild
    rw [get, ofText_of_cut_eq_some h, follow_cons_eq_childAt, hchild]
    exact ih

theorem arrayIndex_of_isWordIndex (h : IsWordIndex segment) (path : Path) :
    arrayIndex segment path = .ok (indexValue segment) :=
  arrayIndex_eq_ok_iff.mpr ⟨h.1, rfl, h.2⟩

theorem exists_arrayIndex_eq_error (h : ¬ IsWordIndex segment) (path : Path) :
    ∃ fault, arrayIndex segment path = .error fault := by
  cases hindex : arrayIndex segment path with
  | error fault => exact ⟨fault, rfl⟩
  | ok position =>
    obtain ⟨hdigits, rfl, hbound⟩ := arrayIndex_eq_ok_iff.mp hindex
    exact absurd ⟨hdigits, hbound⟩ h

/-- A step changes nothing about what is read in the end. -/
theorem Step.follow_eq (h : Step s t) : follow trailingDot s.2 s.1 = follow trailingDot t.2 t.1 := by
  cases h with
  | member hmember => simp only [follow, hmember]
  | item hindex hitem => simp only [follow, arrayIndex_of_isWordIndex hindex, hitem]

theorem Walk.follow_eq (h : Walk s t) : follow trailingDot s.2 s.1 = follow trailingDot t.2 t.1 := by
  induction h with
  | refl => rfl
  | tail _ hstep ih => exact ih.trans hstep.follow_eq

theorem Misses.follow_eq (h : Misses node segment) : follow trailingDot (segment :: rest) node = .ok none := by
  cases h with
  | member hmember => simp only [follow, hmember]
  | item hindex hitem => simp only [follow, arrayIndex_of_isWordIndex hindex, hitem]
  | scalar => rfl

theorem exists_follow_eq_error (h : ¬ IsWordIndex segment) (trailingDot : Bool) (rest : List String)
    (items : List Document) : ∃ fault, follow trailingDot (segment :: rest) (.array items) = .error fault := by
  obtain ⟨fault, hfault⟩ := exists_arrayIndex_eq_error h ⟨segment :: rest, trailingDot⟩
  exact ⟨fault, by simp only [follow, hfault]⟩

/-- At a node with a segment there is a step, or nothing to go on in, or an array that refuses it. -/
theorem step_cases (segment : String) (rest : List String) (d : Document) :
    (∃ child, Step (d, segment :: rest) (child, rest)) ∨ Misses d segment ∨
      ∃ items, d = .array items ∧ ¬ IsWordIndex segment := by
  cases d with
  | scalar value => exact .inr (.inl .scalar)
  | array items =>
    by_cases hindex : IsWordIndex segment
    · cases hitem : items[indexValue segment]? with
      | none => exact .inr (.inl (.item hindex hitem))
      | some child => exact .inl ⟨child, .item hindex hitem⟩
    · exact .inr (.inr ⟨items, rfl, hindex⟩)
  | object members =>
    cases hmember : members.lookup segment with
    | none => exact .inr (.inl (.member hmember))
    | some child => exact .inl ⟨child, .member hmember⟩

/-- What is read tells where the walk ends. -/
theorem walk_of_follow (trailingDot : Bool) (segments : List String) (d : Document) :
    match follow trailingDot segments d with
    | .ok (some found) => Walk (d, segments) (found, [])
    | .ok none => ∃ node segment rest, Walk (d, segments) (node, segment :: rest) ∧ node.Misses segment
    | .error _ =>
      ∃ items segment rest, Walk (d, segments) (.array items, segment :: rest) ∧ ¬ IsWordIndex segment := by
  induction segments generalizing d with
  | nil => exact .refl
  | cons segment rest ih =>
    obtain ⟨child, hstep⟩ | hmisses | ⟨items, rfl, hindex⟩ := step_cases segment rest d
    · have hsame : follow trailingDot (segment :: rest) d = follow trailingDot rest child := hstep.follow_eq
      have hbelow := ih child
      rw [hsame]
      split at hbelow
      · rename_i hread
        simpa only [hread] using Relation.ReflTransGen.head hstep hbelow
      · rename_i hread
        obtain ⟨node, own, more, hwalk, hmisses⟩ := hbelow
        simpa only [hread] using ⟨node, own, more, .head hstep hwalk, hmisses⟩
      · rename_i hread
        obtain ⟨items, own, more, hwalk, hindex⟩ := hbelow
        simpa only [hread] using ⟨items, own, more, .head hstep hwalk, hindex⟩
    · rw [hmisses.follow_eq]
      exact ⟨d, segment, rest, .refl, hmisses⟩
    · obtain ⟨fault, hfault⟩ := exists_follow_eq_error hindex trailingDot rest items
      rw [hfault]
      exact ⟨items, segment, rest, .refl, hindex⟩

/-- Cutting a path text at one dot after the other gives its pieces, less an empty last one that is not the
only one, and reading the text in this way is reading those segments. What is read is where a walk along all
of them comes to; nothing, if the walk comes to a segment that leads to nothing, whatever is behind it; and a
fault exactly if the walk comes to an array with a segment that is no index. -/
theorem get_walk (d : Document) (text : String) :
    let parts := (text.toList.splitOn '.').map String.ofList
    pieces text = (if 1 < parts.length ∧ parts.getLast? = some "" then parts.dropLast else parts) ∧
      d.readText text = d.get (ofText text) ∧
      (∀ found, d.get (ofText text) = .ok (some found) ↔ Walk (d, pieces text) (found, [])) ∧
      (d.get (ofText text) = .ok none ↔
        ∃ node segment rest, Walk (d, pieces text) (node, segment :: rest) ∧ node.Misses segment) ∧
      ((∃ fault, d.get (ofText text) = .error fault) ↔
        ∃ items segment rest, Walk (d, pieces text) (.array items, segment :: rest) ∧ ¬ IsWordIndex segment) := by
  intro parts
  have hget : d.get (ofText text) = follow (ofText text).trailingDot (pieces text) d := by
    rw [pieces_eq_segments, get]
  have hfound {found : Document} (h : Walk (d, pieces text) (found, [])) : d.get (ofText text) = .ok (some found) := by
    rw [hget, h.follow_eq]
    rfl
  have hmissed {node : Document} {segment : String} {rest : List String}
      (h : Walk (d, pieces text) (node, segment :: rest)) (hmisses : node.Misses segment) :
      d.get (ofText text) = .ok none := by
    rw [hget, h.follow_eq, hmisses.follow_eq]
  have hrefused {items : List Document} {segment : String} {rest : List String}
      (h : Walk (d, pieces text) (.array items, segment :: rest)) (hindex : ¬ IsWordIndex segment) :
      ∃ fault, d.get (ofText text) = .error fault := by
    rw [hget, h.follow_eq]
    exact exists_follow_eq_error hindex _ _ _
  have hpieces : pieces text = (if 1 < parts.length ∧ parts.getLast? = some "" then parts.dropLast else parts) := by
    rw [pieces_eq_segments, ofText]
    split <;> rfl
  have hends := walk_of_follow (ofText text).trailingDot (pieces text) d
  rw [← hget] at hends
  refine ⟨hpieces, readText_eq_get d text, fun found => ⟨fun h => ?_, hfound⟩, ⟨fun h => ?_, ?_⟩, ⟨?_, ?_⟩⟩
  · simpa only [h] using hends
  · simpa only [h] using hends
  · rintro ⟨node, segment, rest, hwalk, hmisses⟩
    exact hmissed hwalk hmisses
  · rintro ⟨fault, h⟩
    simpa only [h] using hends
  · rintro ⟨items, segment, rest, hwalk, hindex⟩
    exact hrefused hwalk hindex

example : (ofText "a.").segments = ["a"] ∧ (ofText "a..b").segments = ["a", "", "b"] ∧
    (ofText "..").segments = ["", ""] := by decide

end DocExport.Document
