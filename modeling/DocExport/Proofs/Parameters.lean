import DocExport.Request.Basic
import Mathlib.Data.List.Induction
import Mathlib.Tactic.SplitIfs

/-! Which pair decides a field of a request. Each parameter has names of its own, and the last pair with one of
them sets its field, whatever other pairs there are and wherever they stand. -/
namespace DocExport

/-- What a request holds for a parameter. -/
inductive Field where
  | text (value : Option String)
  | list (items : List String)
  | switch (on : Bool)
  deriving DecidableEq, Repr

namespace Parameter
variable {p q : Parameter} {pair : String × String}

def all : List Parameter := [.format, .includeDocs, .keys, .labels, .delimiter, .callback, .debug]

def name : Parameter → String
  | .format => "output_format"
  | .includeDocs => "include_docs"
  | .keys => "export_keys"
  | .labels => "csv_labels"
  | .delimiter => "csv_delimiter"
  | .callback => "callback"
  | .debug => "debug"

/-- The name of one letter, if there is one. -/
def letter? : Parameter → Option String
  | .format => some "o"
  | .keys => some "k"
  | _ => none

def names (p : Parameter) : List String := p.name :: p.letter?.toList

/-- What the field holds for a value, and its default without one. An empty text counts as none, a list holds the
items between the commas, and only the word true turns a switch on. -/
def read : Parameter → Option String → Field
  | .format, value? | .delimiter, value? | .callback, value? => .text (value?.filter (!·.isEmpty))
  | .keys, value? | .labels, value? => .list ((value?.map Text.items).getD [])
  | .includeDocs, value? | .debug, value? => .switch (value?.any Text.isTrue)

/-- The value of the last pair that names the parameter. -/
def lastValue? (p : Parameter) (pairs : List (String × String)) : Option String :=
  (pairs.filter fun pair => pair.1 ∈ p.names).getLast?.map (·.2)

/-- Some pairs whose names are no parameter's are left out, and the others stay as they are. -/
inductive Drops : List (String × String) → List (String × String) → Prop where
  | nil : Drops [] []
  | keep {pairs kept : List (String × String)} (pair : String × String) :
    Drops pairs kept → Drops (pair :: pairs) (pair :: kept)
  | drop {pairs kept : List (String × String)} {pair : String × String} :
    (∀ p : Parameter, pair.1 ∉ p.names) → Drops pairs kept → Drops (pair :: pairs) kept

theorem mem_all (p : Parameter) : p ∈ all := by cases p <;> decide

theorem name_mem_names (p : Parameter) : p.name ∈ p.names := List.mem_cons_self

theorem ofName?_eq_some_iff {name : String} : ofName? name = some p ↔ name ∈ p.names := by
  constructor
  · unfold ofName?
    split_ifs <;> rintro ⟨rfl⟩ <;> simp_all [names, Parameter.name, letter?]
  · intro h
    cases p <;> simp only [names, Parameter.name, letter?, Option.toList_some, Option.toList_none, List.mem_cons,
      List.not_mem_nil, or_false] at h
    case format | keys => rcases h with rfl | rfl <;> rfl
    all_goals rw [h]; rfl

/-- No name is shared. -/
theorem eq_of_mem_names {name : String} (hp : name ∈ p.names) (hq : name ∈ q.names) : p = q :=
  Option.some.inj ((ofName?_eq_some_iff.mpr hp).symm.trans (ofName?_eq_some_iff.mpr hq))

theorem lastValue?_append (p : Parameter) (front back : List (String × String)) :
    p.lastValue? (front ++ back) = (p.lastValue? back).or (p.lastValue? front) := by
  rw [lastValue?, List.filter_append, List.getLast?_append, Option.map_or]
  rfl

theorem lastValue?_singleton (p : Parameter) (pair : String × String) :
    p.lastValue? [pair] = if pair.1 ∈ p.names then some pair.2 else none := by
  by_cases h : pair.1 ∈ p.names <;> simp [lastValue?, h]

theorem lastValue?_cons (p : Parameter) (pair : String × String) (pairs : List (String × String)) :
    p.lastValue? (pair :: pairs) = (p.lastValue? pairs).or (p.lastValue? [pair]) :=
  lastValue?_append p [pair] pairs

theorem lastValue?_of_drops {pairs kept : List (String × String)} (h : Drops pairs kept) (p : Parameter) :
    p.lastValue? kept = p.lastValue? pairs := by
  induction h with
  | nil => rfl
  | keep pair _ ih => rw [lastValue?_cons, ih, ← lastValue?_cons]
  | drop hnone _ ih => rw [lastValue?_cons, lastValue?_singleton, if_neg (hnone p), Option.or_none, ih]

/-- Of two pairs for different parameters, one at most names `p`. -/
theorem lastValue?_swap {a b : String × String} (h : ∀ p : Parameter, a.1 ∈ p.names → b.1 ∉ p.names) (p : Parameter)
    (after : List (String × String)) : p.lastValue? (b :: a :: after) = p.lastValue? (a :: b :: after) := by
  rw [lastValue?_cons p b (a :: after), lastValue?_cons p a after, lastValue?_cons p a (b :: after),
    lastValue?_cons p b after, lastValue?_singleton, lastValue?_singleton]
  by_cases ha : a.1 ∈ p.names
  · rw [if_neg (h p ha), Option.or_none, Option.or_none]
  · rw [if_neg ha, Option.or_none, Option.or_none]

end Parameter

namespace Request
open Parameter
variable {r r' : Request} {pairs others : List (String × String)}

def field (r : Request) : Parameter → Field
  | .format => .text r.format
  | .includeDocs => .switch r.includeDocs
  | .keys => .list r.keys
  | .labels => .list r.labels
  | .delimiter => .text r.delimiter
  | .callback => .text r.callback
  | .debug => .switch r.debug

/-- A request is what it holds for the parameters. -/
theorem ext_field (h : ∀ p, r.field p = r'.field p) : r = r' := by
  obtain ⟨format, includeDocs, keys, labels, delimiter, callback, debug⟩ := r
  cases h .format
  cases h .includeDocs
  cases h .keys
  cases h .labels
  cases h .delimiter
  cases h .callback
  cases h .debug
  rfl

theorem nonEmpty?_eq_filter (value : String) : nonEmpty? value = (some value).filter (!·.isEmpty) := by
  cases h : value.isEmpty <;> simp [nonEmpty?, Option.filter, h]

/-- An assignment sets one field, whatever was in it. -/
theorem field_assign (r : Request) (value : String) (p q : Parameter) :
    (r.assign value q).field p = if p = q then p.read (some value) else r.field p := by
  cases p <;> cases q <;> simp [assign, field, Parameter.read, nonEmpty?_eq_filter]

theorem field_assignPair (r : Request) (pair : String × String) (p : Parameter) :
    (r.assignPair pair).field p = if pair.1 ∈ p.names then p.read (some pair.2) else r.field p := by
  unfold assignPair
  split
  · rename_i q hq
    have hname : pair.1 ∈ q.names := ofName?_eq_some_iff.mp hq
    rw [field_assign]
    by_cases hp : p = q
    · rw [if_pos hp, hp, if_pos hname]
    · rw [if_neg hp, if_neg fun h => hp (eq_of_mem_names h hname)]
  · rename_i hnone
    rw [if_neg fun h => ?_]
    cases hnone.symm.trans (ofName?_eq_some_iff.mpr h)

theorem field_default (p : Parameter) : ({} : Request).field p = p.read none := by cases p <;> rfl

/-- Each field is read off the value of its last pair. -/
theorem field_ofPairs (pairs : List (String × String)) (p : Parameter) :
    (ofPairs pairs).field p = p.read (p.lastValue? pairs) := by
  induction pairs using List.reverseRecOn with
  | nil => exact field_default p
  | append_singleton pairs pair ih =>
    rw [ofPairs, List.foldl_append, List.foldl_cons, List.foldl_nil, ← ofPairs, field_assignPair, lastValue?_append,
      lastValue?_singleton]
    by_cases h : pair.1 ∈ p.names
    · rw [if_pos h, if_pos h, Option.some_or]
    · rw [if_neg h, if_neg h, Option.none_or, ih]

/-- Pairs with the same last values make the same request. -/
theorem ofPairs_congr (h : ∀ p : Parameter, p.lastValue? others = p.lastValue? pairs) : ofPairs others = ofPairs pairs :=
  ext_field fun p => by rw [field_ofPairs, field_ofPairs, h]

/-- Each field is read off the value of the last pair that has one of its parameter's names, and is the default if
there is none or if that value is empty; a switch is on only if that value is the word true. Other pairs have no
part in it: those with names of no parameter can be left out, and two neighbours that set different fields can
change places. -/
theorem ofPairs_last (pairs : List (String × String)) :
    (∀ p : Parameter, (ofPairs pairs).field p = p.read (p.lastValue? pairs)) ∧
      (∀ p : Parameter, p.lastValue? pairs = none ∨ p.lastValue? pairs = some "" →
        (ofPairs pairs).field p = ({} : Request).field p) ∧
      (∀ p : Parameter, p = .includeDocs ∨ p = .debug → ∀ value, p.lastValue? pairs = some value →
        (ofPairs pairs).field p = .switch (Text.isTrue value)) ∧
      (∀ kept, Drops pairs kept → ofPairs kept = ofPairs pairs) ∧
      ∀ before a b after, pairs = before ++ a :: b :: after → (∀ p : Parameter, a.1 ∈ p.names → b.1 ∉ p.names) →
        ofPairs (before ++ b :: a :: after) = ofPairs pairs := by
  refine ⟨field_ofPairs pairs, ?_, ?_, ?_, ?_⟩
  · rintro p (h | h)
    · rw [field_ofPairs, h, field_default]
    · rw [field_ofPairs, h, field_default]
      cases p <;> rfl
  · rintro p (rfl | rfl) value h
    · rw [field_ofPairs, h, Parameter.read, Option.any_some]
    · rw [field_ofPairs, h, Parameter.read, Option.any_some]
  · exact fun kept h => ofPairs_congr (lastValue?_of_drops h)
  · rintro before a b after rfl h
    refine ofPairs_congr fun p => ?_
    rw [lastValue?_append, lastValue?_swap h, ← lastValue?_append]

example : ofPairs [("o", "csv"), ("debug", "True"), ("keys", "a"), ("k", "a, b"), ("output_format", ""), ("debug", "1")] =
    { keys := ["a", "b"] } := by decide

end Request
end DocExport
