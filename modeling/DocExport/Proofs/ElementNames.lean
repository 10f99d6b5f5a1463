import DocExport.Proofs.Elements
import DocExport.Proofs.Nodes

/-! When documents have no elements. A key of any object, at any depth, stops the rendering if it is no name of
an element, and nothing else does. The one that is reported is the first in document order. -/
namespace DocExport

namespace Document
variable {key : String}

mutual

/-- All keys are the keys of all nodes. -/
theorem mem_allKeys_iff (d : Document) : key ∈ d.allKeys ↔ ∃ node ∈ d.nodes, key ∈ node.keys := by
  match d with
  | .scalar value => simp [allKeys, nodes, keys]
  | .array items =>
    rw [allKeys, mem_itemKeys_iff items, nodes]
    simp [keys]
  | .object members =>
    rw [allKeys, mem_memberKeys_iff members, nodes]
    simp [keys]

theorem mem_itemKeys_iff (items : List Document) :
    key ∈ itemKeys items ↔ ∃ node ∈ itemNodes items, key ∈ node.keys := by
  match items with
  | [] => simp [itemKeys, itemNodes]
  | item :: items =>
    rw [itemKeys, itemNodes, List.mem_append, mem_allKeys_iff item, mem_itemKeys_iff items]
    simp only [List.mem_append, or_and_right, exists_or]

theorem mem_memberKeys_iff (members : List Member) :
    key ∈ memberKeys members ↔ key ∈ members.map (·.1) ∨ ∃ node ∈ memberNodes members, key ∈ node.keys := by
  match members with
  | [] => simp [memberKeys, memberNodes]
  | (own, value) :: members =>
    rw [memberKeys, memberNodes, List.mem_append, List.mem_cons, mem_allKeys_iff value, mem_memberKeys_iff members]
    simp only [List.map_cons, List.mem_cons, List.mem_append, or_and_right, exists_or]
    exact or_or_or_comm

end

theorem itemKeys_eq_flatMap (items : List Document) : itemKeys items = items.flatMap allKeys := by
  induction items with
  | nil => rw [itemKeys, List.flatMap_nil]
  | cons item items ih => rw [itemKeys, ih, List.flatMap_cons]

end Document

namespace Element
open Document
variable {docs : List Document}

theorem exists_render_eq_error_iff :
    (∃ fault, render docs = .error fault) ↔ ∃ key ∈ docs.flatMap allKeys, isName key = false := by
  simp only [render_eq_error_iff, itemKeys_eq_flatMap]
  constructor
  · rintro ⟨_, key, hkey, -⟩
    exact ⟨key, List.mem_of_find?_eq_some hkey, by simpa using List.find?_some hkey⟩
  · rintro ⟨key, hmem, hkey⟩
    have hfound : ((docs.flatMap allKeys).find? fun key => !isName key).isSome :=
      List.find?_isSome.mpr ⟨key, hmem, by simp [hkey]⟩
    obtain ⟨first, hfirst⟩ := Option.isSome_iff_exists.mp hfound
    exact ⟨_, first, hfirst, rfl⟩

/-- Documents are refused exactly if an object at some depth has a key that is no name of an element, be it that
of a member with nothing to write below it. The first such key in document order is reported, where a key comes
before those below it. -/
theorem render_refused_keys (docs : List Document) :
    ((∃ fault, render docs = .error fault) ↔
        ∃ d ∈ docs, ∃ node ∈ d.nodes, ∃ key ∈ node.keys, isName key = false) ∧
      (∀ fault, render docs = .error fault ↔
        ∃ before key after, docs.flatMap allKeys = before ++ key :: after ∧
          (∀ own ∈ before, isName own = true) ∧ isName key = false ∧ fault = .elementName key) ∧
      ∀ key, (Failure.format (.elementName key)).message =
        "Format error: key '" ++ key ++ "' is not a valid XML element name" := by
  refine ⟨?_, fun fault => ?_, fun _ => rfl⟩
  · rw [exists_render_eq_error_iff]
    constructor
    · rintro ⟨key, hmem, hkey⟩
      obtain ⟨d, hd, hall⟩ := List.mem_flatMap.mp hmem
      obtain ⟨node, hnode, hown⟩ := (mem_allKeys_iff d).mp hall
      exact ⟨d, hd, node, hnode, key, hown, hkey⟩
    · rintro ⟨d, hd, node, hnode, key, hown, hkey⟩
      exact ⟨key, List.mem_flatMap.mpr ⟨d, hd, (mem_allKeys_iff d).mpr ⟨node, hnode, hown⟩⟩, hkey⟩
  · simp only [render_eq_error_iff, itemKeys_eq_flatMap, List.find?_eq_some_iff_append]
    constructor
    · rintro ⟨key, ⟨hkey, before, after, hkeys, hbefore⟩, rfl⟩
      exact ⟨before, key, after, hkeys, by simpa using hbefore, by simpa using hkey, rfl⟩
    · rintro ⟨before, key, after, hkeys, hbefore, hkey, rfl⟩
      exact ⟨key, ⟨by simpa using hkey, before, after, hkeys, by simpa using hbefore⟩, rfl⟩

/-- The key of an empty array, deep in other arrays, and an empty key behind it. -/
example : render [.object [("a", .array [.array [.object [("b c", .array [])]]]), ("", .null)]] =
    .error (.elementName "b c") := by decide +kernel

end Element
end DocExport
