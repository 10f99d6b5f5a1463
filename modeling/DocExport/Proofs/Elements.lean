import DocExport.Proofs.Markup
import DocExport.Proofs.Outcomes

/-! The elements of documents. The body for a collection is read back as one element for each
object and each scalar, in document order, whatever the keys and the strings are; with a key that is
no name there is no body. -/
namespace DocExport

namespace Document

mutual

/-- The keys of all objects in document order, each before the keys below it. -/
def allKeys : Document → List String
  | .scalar _ => []
  | .array items => itemKeys items
  | .object members => memberKeys members

def itemKeys : List Document → List String
  | [] => []
  | item :: items => item.allKeys ++ itemKeys items

def memberKeys : List (String × Document) → List String
  | [] => []
  | (key, value) :: members => key :: value.allKeys ++ memberKeys members

end

mutual

/-- The elements that a document is meant to be under a name: those of all items for an array, one
for an object, with those of its members as content, and one for a scalar, with its text. -/
def elements (name : String) : Document → List Markup.Node
  | .scalar .null => [.empty name]
  | .scalar value => [.element name (Markup.textNodes value.text.toList)]
  | .array items => itemElements name items
  | .object members => [.element name (memberElements members)]

def itemElements (name : String) : List Document → List Markup.Node
  | [] => []
  | item :: items => item.elements name ++ itemElements name items

def memberElements : List (String × Document) → List Markup.Node
  | [] => []
  | (key, value) :: members => value.elements key ++ memberElements members

end

end Document

namespace Element
open Document Markup
variable {keys moreKeys : List String} {nodes moreNodes : List Node} {name key : String}
  {result more : Except FormatFault (List Element)}

theorem forestNodes_append (front back : List Element) :
    forestNodes (front ++ back) = forestNodes front ++ forestNodes back := by
  induction front with
  | nil => rw [forestNodes, List.nil_append, List.nil_append]
  | cons element front ih => rw [List.cons_append, forestNodes, forestNodes, ih, List.cons_append]

/-- What an attempt to write `nodes` with `keys` as names gives: elements that are read as the nodes,
or else a report of the first key that is no name. -/
def Spells (keys : List String) (nodes : List Node) : Except FormatFault (List Element) → Prop
  | .ok forest => forestNodes forest = nodes ∧ keys.find? (fun key => !isName key) = none
  | .error fault => ∃ key, keys.find? (fun key => !isName key) = some key ∧ fault = .elementName key

theorem Spells.append (h : Spells keys nodes result) (hmore : Spells moreKeys moreNodes more) :
    Spells (keys ++ moreKeys) (nodes ++ moreNodes) (do return (← result) ++ (← more)) := by
  match result, more with
  | .ok front, .ok back =>
    refine ⟨?_, ?_⟩
    · rw [forestNodes_append, h.1, hmore.1]
    · rw [List.find?_append, h.2, hmore.2, Option.or_none]
  | .ok front, .error fault =>
    obtain ⟨key, hkey, hfault⟩ := hmore
    exact ⟨key, by rw [List.find?_append, h.2, Option.none_or, hkey], hfault⟩
  | .error fault, _ =>
    obtain ⟨key, hkey, hfault⟩ := h
    exact ⟨key, by rw [List.find?_append, hkey, Option.some_or], hfault⟩

theorem Spells.cons (hkey : isName key) (h : Spells keys nodes result) : Spells (key :: keys) nodes result := by
  have hfind : (key :: keys).find? (fun key => !isName key) = keys.find? (fun key => !isName key) :=
    List.find?_cons_of_neg (by simpa using hkey)
  match result with
  | .ok forest => exact ⟨h.1, hfind.trans h.2⟩
  | .error fault =>
    obtain ⟨bad, hbad, hfault⟩ := h
    exact ⟨bad, hfind.trans hbad, hfault⟩

mutual

theorem spells_ofDocument (name : String) (d : Document) :
    Spells d.allKeys (d.elements name) (ofDocument name d) := by
  match d with
  | .scalar value => cases value <;> exact ⟨rfl, rfl⟩
  | .array items =>
    rw [allKeys, elements, ofDocument]
    exact spells_ofItems name items
  | .object members =>
    have hmembers := spells_ofMembers members
    rw [allKeys, elements, ofDocument]
    match hresult : ofMembers members with
    | .ok children =>
      rw [hresult] at hmembers
      exact ⟨by rw [forestNodes, node, hmembers.1, forestNodes], hmembers.2⟩
    | .error fault =>
      rw [hresult] at hmembers
      exact hmembers

theorem spells_ofItems (name : String) (items : List Document) :
    Spells (itemKeys items) (itemElements name items) (ofItems name items) := by
  match items with
  | [] => exact ⟨rfl, rfl⟩
  | item :: items =>
    rw [itemKeys, itemElements, ofItems]
    exact (spells_ofDocument name item).append (spells_ofItems name items)

theorem spells_ofMembers (members : List Member) :
    Spells (memberKeys members) (memberElements members) (ofMembers members) := by
  match members with
  | [] => exact ⟨rfl, rfl⟩
  | (key, value) :: members =>
    rw [memberKeys, memberElements, ofMembers]
    split
    · rename_i hkey
      exact ((spells_ofDocument key value).append (spells_ofMembers members)).cons hkey
    · rename_i hkey
      exact ⟨key, List.find?_cons_of_pos (by simpa using hkey), rfl⟩

end

mutual

/-- Elements are named after the keys, but for those at the root. -/
theorem mem_names_elements {found name : String} (d : Document) (h : found ∈ forestNames (d.elements name)) :
    found = name ∨ found ∈ d.allKeys := by
  match d with
  | .scalar value =>
    have hnames : forestNames ((Document.scalar value).elements name) = [name] := by
      cases value with
      | null => rfl
      | bool | number | string =>
        simp only [elements, forestNames, Node.names, forestNames_textNodes, List.append_nil]
    exact .inl (List.mem_singleton.mp (hnames ▸ h))
  | .array items =>
    rw [elements] at h
    exact mem_names_itemElements items h
  | .object members =>
    rw [elements, forestNames, forestNames, List.append_nil, Node.names, List.mem_cons] at h
    exact h.imp_right (mem_names_memberElements members)

theorem mem_names_itemElements {found name : String} (items : List Document)
    (h : found ∈ forestNames (itemElements name items)) : found = name ∨ found ∈ itemKeys items := by
  match items with
  | [] => exact absurd h List.not_mem_nil
  | item :: items =>
    rw [itemElements, forestNames_append, List.mem_append] at h
    rw [itemKeys, List.mem_append]
    rcases h with hitem | hitems
    · exact (mem_names_elements item hitem).imp_right .inl
    · exact (mem_names_itemElements items hitems).imp_right .inr

theorem mem_names_memberElements {found : String} (members : List Member)
    (h : found ∈ forestNames (memberElements members)) : found ∈ memberKeys members := by
  match members with
  | [] => exact absurd h List.not_mem_nil
  | (key, value) :: members =>
    rw [memberElements, forestNames_append, List.mem_append] at h
    rw [memberKeys, List.mem_append, List.mem_cons]
    rcases h with hvalue | hmembers
    · exact .inl (mem_names_elements value hvalue)
    · exact .inr (mem_names_memberElements members hmembers)

end

/-- Characters of a name behind its first one. -/
def isKeyChar (c : Char) : Bool := Text.isAlphabetic c || Text.isNumeral c || c = '_' || c = '-' || c = '.'

theorem exists_cons_of_isName (h : isName name) :
    ∃ first rest, name.toList = first :: rest ∧ (Text.isAlphabetic first ∨ first = '_') ∧
      ∀ c ∈ rest, isKeyChar c := by
  unfold isName at h
  split at h
  · cases h
  · rename_i first rest hchars
    simp only [Bool.and_eq_true, Bool.or_eq_true, decide_eq_true_eq, List.all_eq_true] at h
    refine ⟨first, rest, hchars, h.1.2, fun c hc => ?_⟩
    simpa [isKeyChar] using h.2 c hc

theorem isKeyChar_of_mem (h : isName name) {c : Char} (hc : c ∈ name.toList) : isKeyChar c := by
  obtain ⟨first, rest, hchars, hfirst, hrest⟩ := exists_cons_of_isName h
  rw [hchars] at hc
  rcases List.mem_cons.mp hc with rfl | hc
  · rcases hfirst with halphabetic | rfl
    · simp [isKeyChar, halphabetic]
    · simp [isKeyChar]
  · exact hrest c hc

theorem isTagName_of_isName (h : isName name) : isTagName name.toList := by
  have hreserved : reserved.all fun c => !isKeyChar c := by decide +kernel
  obtain ⟨first, rest, hchars, -⟩ := exists_cons_of_isName h
  simp only [isTagName, Bool.and_eq_true, List.all_eq_true]
  refine ⟨by rw [hchars]; rfl, fun c hc => ?_⟩
  rw [Bool.not_eq_eq_eq_not, Bool.not_true, ← Bool.not_eq_true, List.contains_iff_mem]
  intro hmem
  have hnone := List.all_eq_true.mp hreserved c hmem
  rw [isKeyChar_of_mem h hc] at hnone
  cases hnone

theorem itemElements_eq_flatMap (items : List Document) :
    itemElements name items = items.flatMap (Document.elements name) := by
  induction items with
  | nil => rw [itemElements, List.flatMap_nil]
  | cons item items ih => rw [itemElements, ih, List.flatMap_cons]

theorem Spells.eq_error_iff {fault : FormatFault} (h : Spells keys nodes result) :
    result = .error fault ↔ ∃ key, keys.find? (fun key => !isName key) = some key ∧ fault = .elementName key := by
  match result with
  | .ok forest => exact ⟨nofun, fun ⟨_, hkey, _⟩ => nomatch hkey.symm.trans h.2⟩
  | .error own =>
    obtain ⟨key, hkey, rfl⟩ := h
    rw [Except.error.injEq]
    constructor
    · rintro rfl
      exact ⟨key, hkey, rfl⟩
    · rintro ⟨other, hother, rfl⟩
      cases hkey.symm.trans hother
      rfl

theorem render_eq_error_iff {docs : List Document} {fault : FormatFault} :
    render docs = .error fault ↔
      ∃ key, (itemKeys docs).find? (fun key => !isName key) = some key ∧ fault = .elementName key := by
  rw [render, ofDocuments, map_eq_error_iff, map_eq_error_iff]
  exact (spells_ofItems "doc" docs).eq_error_iff

theorem isName_of_mem_names {docs : List Document} (hkeys : ∀ key ∈ itemKeys docs, isName key) :
    ∀ name ∈ (Node.element "docs" (itemElements "doc" docs)).names, isName name := by
  intro name hname
  rw [Node.names, List.mem_cons] at hname
  rcases hname with rfl | hname
  · decide +kernel
  · rcases mem_names_itemElements docs hname with rfl | hkey
    · decide +kernel
    · exact hkeys name hkey

/-- A body is that of a root which has the elements of all documents in it and only names for names. -/
theorem exists_root_of_render {docs : List Document} {body : String} (h : render docs = .ok body) :
    ∃ root : Element, body.toList = root.chars ∧
      root.node = .element "docs" (docs.flatMap (Document.elements "doc")) ∧
      ∀ name ∈ root.node.names, isName name := by
  have hspells := spells_ofItems "doc" docs
  rw [render, ofDocuments] at h
  match hforest : ofItems "doc" docs with
  | .error fault =>
    rw [hforest] at h
    cases h
  | .ok forest =>
    rw [hforest] at h hspells
    cases h
    have hkeys : ∀ key ∈ itemKeys docs, isName key := by simpa using List.find?_eq_none.mp hspells.2
    refine ⟨.parent "docs" forest, String.toList_ofList, ?_⟩
    rw [node, hspells.1, ← itemElements_eq_flatMap]
    exact ⟨rfl, isName_of_mem_names hkeys⟩

/-- A body is read as one root with the elements of all documents in it, in order. Nothing in a key
or a string opens or closes an element of its own. -/
theorem read_documents (docs : List Document) (body : String) (h : render docs = .ok body) :
    Markup.read body.toList = some (.element "docs" (docs.flatMap (Document.elements "doc"))) := by
  obtain ⟨root, hbody, hnode, hnames⟩ := exists_root_of_render h
  rw [hbody, read_chars fun name hname => isTagName_of_isName (hnames name hname), hnode]

/-- Strings with tags and entities in them, arrays in arrays, an empty array and documents that are
no objects. -/
theorem read_documents_nested :
    let first : Document := .object
      [("a", .array [.scalar (.string "</a><b>&lt;"), .array [], .array [.null, .scalar (.number (.integer (-7)))]]),
        ("b", .object [("a", .scalar (.string ""))])]
    let second : Document := .array [.scalar (.string "\"\x27"), .scalar (.bool true)]
    let body := "<docs><doc><a>&lt;/a&gt;&lt;b&gt;&amp;lt;</a><a/><a>-7</a><b><a></a></b></doc>" ++
      "<doc>&quot;&apos;</doc><doc>true</doc></docs>"
    render [first, second] = .ok body ∧
      Markup.read body.toList = some (.element "docs"
        [.element "doc" [.element "a" [.text "</a><b>&lt;"], .empty "a", .element "a" [.text "-7"],
            .element "b" [.element "a" []]],
          .element "doc" [.text "\"\x27"], .element "doc" [.text "true"]]) := by
  intro first second body
  have hforest : ofItems "doc" [first, second] = .ok
      [.parent "doc" [.text "a" "</a><b>&lt;", .empty "a", .text "a" "-7", .parent "b" [.text "a" ""]],
        .text "doc" "\"\x27", .text "doc" "true"] := by rfl
  have hrender : render [first, second] = .ok body := by
    rw [render, ofDocuments, hforest]
    exact congrArg Except.ok (by decide +kernel)
  have hread := read_documents [first, second] body hrender
  exact ⟨hrender, hread⟩

end Element
end DocExport
