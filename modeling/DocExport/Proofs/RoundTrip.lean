import DocExport.CommandLine.Session
import DocExport.Proofs.Reading
import DocExport.Proofs.Rebuilding
import DocExport.Proofs.Scanning

/-! Documents read back from their JSON text. In either layout the text denotes the document that was
written, as long as its numbers are integers of a word and it nests no deeper than a reader goes. -/
namespace DocExport

namespace Document

mutual

/-- How deep arrays and objects nest. -/
def depth : Document → Nat
  | .scalar _ => 0
  | .array items => itemsDepth items + 1
  | .object members => membersDepth members + 1

def itemsDepth : List Document → Nat
  | [] => 0
  | item :: items => max item.depth (itemsDepth items)

def membersDepth : List (String × Document) → Nat
  | [] => 0
  | (_, value) :: members => max value.depth (membersDepth members)

end

/-- All numbers are integers that fit a word. -/
def IsExact (d : Document) : Prop := ∀ leaf ∈ d.leaves, leaf.2.IsExact

instance : DecidablePred IsExact := fun d => inferInstanceAs (Decidable (∀ leaf ∈ d.leaves, leaf.2.IsExact))

theorem isExact_array_iff {items : List Document} : (array items).IsExact ↔ ∀ item ∈ items, item.IsExact := by
  have hitems (position : Nat) :
      (∀ leaf ∈ itemLeaves position items, leaf.2.IsExact) ↔ ∀ item ∈ items, item.IsExact := by
    induction items generalizing position with
    | nil => exact iff_of_true (List.forall_mem_nil _) (List.forall_mem_nil _)
    | cons item items ih =>
      rw [itemLeaves, List.forall_mem_append, List.forall_mem_map, List.forall_mem_cons, ih]
      rfl
  rw [IsExact, leaves, hitems]

theorem isExact_object_iff {members : List Member} :
    (object members).IsExact ↔ ∀ member ∈ members, member.2.IsExact := by
  rw [IsExact, leaves]
  induction members with
  | nil => exact iff_of_true (List.forall_mem_nil _) (List.forall_mem_nil _)
  | cons member members ih =>
    rw [memberLeaves, List.forall_mem_append, List.forall_mem_map, List.forall_mem_cons, ih]
    rfl

end Document

namespace Json
open Document
variable {tokens : List Token}

theorem marked_itemsThen {rest : List Token} (h : Marked rest) (items : List Document) :
    Marked (itemsThen items rest) := by
  cases items with
  | nil => exact h
  | cons item items => exact marked_cons rfl

theorem marked_membersThen {rest : List Token} (h : Marked rest) (members : List Member) :
    Marked (membersThen members rest) := by
  cases members with
  | nil => exact h
  | cons member members => exact marked_cons rfl

theorem legible_member (key : String) (h : Legible tokens) : Legible (.scalar (.string key) :: .colon :: tokens) :=
  .scalar trivial (marked_cons rfl) (.mark rfl h)

mutual

theorem legible_tokensThen {rest : List Token} (d : Document) (hexact : d.IsExact) (hnext : Marked rest)
    (hrest : Legible rest) : Legible (d.tokensThen rest) := by
  match d with
  | .scalar value => exact .scalar (hexact ([], value) List.mem_cons_self) hnext hrest
  | .array [] => exact .mark rfl (.mark rfl hrest)
  | .array (item :: items) =>
    obtain ⟨hitem, hitems⟩ := List.forall_mem_cons.mp (isExact_array_iff.mp hexact)
    have hclose : Marked (.arrayClose :: rest) := marked_cons rfl
    exact .mark rfl (legible_tokensThen item hitem (marked_itemsThen hclose items)
      (legible_itemsThen items hitems hclose (.mark rfl hrest)))
  | .object [] => exact .mark rfl (.mark rfl hrest)
  | .object ((key, value) :: members) =>
    obtain ⟨hvalue, hmembers⟩ := List.forall_mem_cons.mp (isExact_object_iff.mp hexact)
    have hclose : Marked (.objectClose :: rest) := marked_cons rfl
    exact .mark rfl (legible_member key (legible_tokensThen value hvalue (marked_membersThen hclose members)
      (legible_membersThen members hmembers hclose (.mark rfl hrest))))

theorem legible_itemsThen {rest : List Token} (items : List Document) (hexact : ∀ item ∈ items, item.IsExact)
    (hnext : Marked rest) (hrest : Legible rest) : Legible (itemsThen items rest) := by
  match items with
  | [] => exact hrest
  | item :: items =>
    obtain ⟨hitem, hitems⟩ := List.forall_mem_cons.mp hexact
    exact .mark rfl (legible_tokensThen item hitem (marked_itemsThen hnext items)
      (legible_itemsThen items hitems hnext hrest))

theorem legible_membersThen {rest : List Token} (members : List Member)
    (hexact : ∀ member ∈ members, member.2.IsExact) (hnext : Marked rest) (hrest : Legible rest) :
    Legible (membersThen members rest) := by
  match members with
  | [] => exact hrest
  | (key, value) :: members =>
    obtain ⟨hvalue, hmembers⟩ := List.forall_mem_cons.mp hexact
    exact .mark rfl (legible_member key (legible_tokensThen value hvalue (marked_membersThen hnext members)
      (legible_membersThen members hmembers hnext hrest)))

end

theorem run_cons {stack next : List Frame} {focus after : Focus} {token : Token}
    (h : step stack focus token = some (next, after)) :
    run stack focus (token :: tokens) = run next after tokens := by
  rw [run, h]

/-- The first item of an array is read like any other value. -/
theorem run_first {stack : List Frame} {rest : List Token} (d : Document) :
    run (.array [] :: stack) .first (d.tokensThen rest) = run (.array [] :: stack) .value (d.tokensThen rest) := by
  match d with
  | .scalar _ | .array [] | .array (_ :: _) | .object [] | .object (_ :: _) => rfl

theorem step_arrayOpen {stack : List Frame} (h : stack.length < depthLimit) :
    step stack .value .arrayOpen = some (.array [] :: stack, .first) := if_pos h

theorem step_objectOpen {stack : List Frame} (h : stack.length < depthLimit) :
    step stack .value .objectOpen = some (.object [] :: stack, .first) := if_pos h

-- A value is read on top of whatever is open and leaves it as it was. Of the container it is in, only
-- the children so far are on the stack, so the runs over the further ones speak of those.
mutual

theorem run_tokensThen {stack : List Frame} {rest : List Token} (d : Document) (hdistinct : d.Distinct)
    (hdepth : stack.length + d.depth ≤ depthLimit) :
    run stack .value (d.tokensThen rest) = run stack (.finished d) rest := by
  match d with
  | .scalar value => exact run_cons rfl
  | .array [] =>
    rw [depth] at hdepth
    rw [tokensThen, run_cons (step_arrayOpen (by omega)), run_cons rfl]
  | .array (item :: items) =>
    rw [distinct_array_iff, List.forall_mem_cons] at hdistinct
    rw [depth, itemsDepth] at hdepth
    rw [tokensThen, run_cons (step_arrayOpen (by omega)), run_first,
      run_tokensThen item hdistinct.1 (by rw [List.length_cons]; omega), run_itemsThen items hdistinct.2 (by omega)]
    rfl
  | .object [] =>
    rw [depth] at hdepth
    rw [tokensThen, run_cons (step_objectOpen (by omega)), run_cons rfl]
  | .object ((key, value) :: members) =>
    obtain ⟨hkeys, hvalues⟩ := distinct_object_iff.mp hdistinct
    rw [List.forall_mem_cons] at hvalues
    rw [depth, membersDepth] at hdepth
    rw [tokensThen, run_cons (step_objectOpen (by omega)), run_cons rfl, run_cons rfl,
      run_tokensThen value hvalues.1 (by rw [List.length_cons]; omega),
      run_membersThen members hkeys hvalues.2 (by omega)]
    rfl

theorem run_itemsThen {stack : List Frame} {rest : List Token} {done : List Document} {value : Document}
    (items : List Document) (hdistinct : ∀ item ∈ items, item.Distinct)
    (hdepth : stack.length + (itemsDepth items + 1) ≤ depthLimit) :
    run (.array done :: stack) (.finished value) (itemsThen items (.arrayClose :: rest)) =
      run stack (.finished (.array (done.reverse ++ value :: items))) rest := by
  match items with
  | [] =>
    rw [itemsThen, run_cons rfl, List.reverse_cons]
  | item :: items =>
    rw [List.forall_mem_cons] at hdistinct
    rw [itemsDepth] at hdepth
    rw [itemsThen, run_cons rfl, run_tokensThen item hdistinct.1 (by rw [List.length_cons]; omega),
      run_itemsThen items hdistinct.2 (by omega), List.reverse_cons, List.append_assoc, List.singleton_append]

theorem run_membersThen {stack : List Frame} {rest : List Token} {done : List Member} {key : String}
    {value : Document} (members : List Member) (hkeys : ((done ++ (key, value) :: members).map (·.1)).Nodup)
    (hdistinct : ∀ member ∈ members, member.2.Distinct)
    (hdepth : stack.length + (membersDepth members + 1) ≤ depthLimit) :
    run (.member done key :: stack) (.finished value) (membersThen members (.objectClose :: rest)) =
      run stack (.finished (.object (done ++ (key, value) :: members))) rest := by
  -- a key that was there already would put the value in the old place
  have hset : setMember key value done = done ++ [(key, value)] := by
    refine setMember_of_not_mem (fun hmem => ?_) value
    rw [List.map_append, List.map_cons] at hkeys
    exact (List.disjoint_of_nodup_append hkeys) hmem List.mem_cons_self
  match members with
  | [] =>
    rw [membersThen, run_cons rfl, hset]
  | (next, nextValue) :: members =>
    rw [List.forall_mem_cons] at hdistinct
    rw [membersDepth] at hdepth
    have hassoc : done ++ (key, value) :: (next, nextValue) :: members =
        (done ++ [(key, value)]) ++ (next, nextValue) :: members := by
      rw [List.append_assoc, List.singleton_append]
    rw [hassoc] at hkeys ⊢
    rw [membersThen, run_cons rfl, run_cons rfl, run_cons rfl,
      run_tokensThen nextValue hdistinct.1 (by rw [List.length_cons]; omega), hset,
      run_membersThen members hkeys hdistinct.2 (by omega)]

end

end Json

namespace Document
variable {d : Document}

theorem ofTokens?_tokens (hdistinct : d.Distinct) (hdepth : d.depth ≤ Json.depthLimit) :
    Json.ofTokens? d.tokens = some d := by
  rw [Json.ofTokens?, tokens, Json.run_tokensThen d hdistinct (by simpa using hdepth)]
  rfl

theorem legible_tokens (hexact : d.IsExact) : Json.Legible d.tokens :=
  Json.legible_tokensThen d hexact Json.marked_nil .nil

/-- The text of a document in either layout denotes the document. -/
theorem ofJson?_text (hexact : d.IsExact) (hdistinct : d.Distinct) (hdepth : d.depth ≤ Json.depthLimit) :
    ofJson? d.compact = some d ∧ ofJson? d.indented = some d := by
  constructor
  · rw [ofJson?, compact, String.toList_ofList, Json.scan_compact (legible_tokens hexact), Option.bind_some,
      ofTokens?_tokens hdistinct hdepth]
  · rw [ofJson?, indented, String.toList_ofList, Json.scan_indented (legible_tokens hexact), Option.bind_some,
      ofTokens?_tokens hdistinct hdepth]

/-- A collection is one of its documents or the array of them. -/
theorem collection_of_forall_mem {P : Document → Prop} {docs : List Document} (harray : P (.array docs))
    (h : ∀ d ∈ docs, P d) : P (collection docs) := by
  match docs with
  | [d] => exact h d List.mem_cons_self
  | [] | _ :: _ :: _ => exact harray

end Document

namespace CommandLine
open Document
variable {docs : List Document}

/-- A lone array is taken for its items; every other collection is told by its one value. -/
theorem documentsOf_collection (hlone : ∀ items, docs ≠ [.array items]) : documentsOf (collection docs) = docs := by
  match docs with
  | [] | [.scalar _] | [.object _] | _ :: _ :: _ => rfl
  | [.array items] => exact absurd rfl (hlone items)

theorem readDocuments_eq_ok {s : Surroundings} {input text : String} {d : Document}
    (hinput : (if input = standardInput then s.input? else s.file? input) = some text) (htext : ofJson? text = some d) :
    readDocuments s input = .ok (documentsOf d) := by
  by_cases hstandard : input = standardInput
  · rw [if_pos hstandard] at hinput
    simp [readDocuments, hstandard, hinput, htext, bind, Except.bind, pure, Except.pure]
  · rw [if_neg hstandard] at hinput
    simp [readDocuments, hstandard, hinput, htext, bind, Except.bind, pure, Except.pure]

/-- A collection that went out as JSON is read back as it was, from a file or from standard input
and in either layout: no document, no member and no character is lost or moved. -/
theorem readDocuments_collectionJson {s : Surroundings} {input : String} {pretty : Bool}
    (hinput : (if input = standardInput then s.input? else s.file? input) = some (collectionJson pretty docs))
    (hdistinct : ∀ d ∈ docs, d.Distinct) (hexact : ∀ d ∈ docs, d.IsExact)
    (hlone : ∀ items, docs ≠ [.array items]) (hdepth : (collection docs).depth ≤ 127) :
    readDocuments s input = .ok docs := by
  have htext : ofJson? (collectionJson pretty docs) = some (collection docs) := by
    have hexact' : (collection docs).IsExact := collection_of_forall_mem (isExact_array_iff.mpr hexact) hexact
    have hdistinct' : (collection docs).Distinct :=
      collection_of_forall_mem (distinct_array_iff.mpr hdistinct) hdistinct
    obtain ⟨hcompact, hindented⟩ := ofJson?_text hexact' hdistinct' hdepth
    cases pretty
    · exact hcompact
    · exact hindented
  rw [readDocuments_eq_ok hinput htext, documentsOf_collection hlone]

/-- Integers at both ends of a word, keys and texts with quotes and control characters, empty and
nested containers; on one line as standard input and indented as a file. -/
theorem readDocuments_collectionJson_layouts :
    let docs : List Document :=
      [.object [("z", .array [.scalar (.number (.integer (-9223372036854775808))), .object []]),
          ("a\n\"", .scalar (.number (.integer 18446744073709551615)))],
        .array [.scalar (.string "\x01\\é😀"), .null]]
    let s : Surroundings :=
      { file? := fun name => if name = "docs.json" then some (collectionJson true docs) else none
        input? := some
          "[\x7b\"z\":[-9223372036854775808,\x7b\x7d],\"a\\n\\\"\":18446744073709551615\x7d,[\"\\u0001\\\\é😀\",null]]"
        defaultConfig := "docs.yaml", configVariable := none, transformVariable := none }
    ((∀ d ∈ docs, d.Distinct) ∧ (∀ d ∈ docs, d.IsExact) ∧ (∀ items, docs ≠ [.array items]) ∧
        (collection docs).depth ≤ 127 ∧ s.input? = some (collectionJson false docs)) ∧
      readDocuments s "docs.json" = .ok docs ∧ readDocuments s standardInput = .ok docs := by
  intro docs s
  have hdistinct : ∀ d ∈ docs, d.Everywhere fun node => node.keys.Nodup := by decide
  have hexact : ∀ d ∈ docs, d.IsExact := by decide
  have hlone : ∀ items, docs ≠ [.array items] := fun items h =>
    List.cons_ne_nil _ _ (List.cons.inj h).2
  have hdepth : (collection docs).depth ≤ 127 := by decide
  have hinput : s.input? = some (collectionJson false docs) := by decide
  refine ⟨⟨hdistinct, hexact, hlone, hdepth, hinput⟩, ?_, ?_⟩
  · exact readDocuments_collectionJson rfl hdistinct hexact hlone hdepth
  · exact readDocuments_collectionJson hinput hdistinct hexact hlone hdepth

end CommandLine
end DocExport
