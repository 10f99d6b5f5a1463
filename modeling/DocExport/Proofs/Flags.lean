import DocExport.CommandLine.Invocation
import DocExport.Proofs.FormEncoding
import DocExport.Proofs.Parameters

/-! Options of a rendering as pairs of a query. What the options say about the request could as well be said at the
end of its query, under the long names of the parameters. -/
namespace DocExport.CommandLine.RenderOptions
open Text
variable {o : RenderOptions}

/-- The value that the options have for a parameter. A flag that is given stands for the word true. -/
def value? (o : RenderOptions) : Parameter → Option String
  | .format => o.format
  | .includeDocs => if o.includeDocs then some "true" else none
  | .keys => o.keys
  | .labels => o.labels
  | .delimiter => o.delimiter
  | .callback => o.callback
  | .debug => if o.debug then some "true" else none

/-- What is given for a parameter, under its long name. -/
def pair? (o : RenderOptions) (p : Parameter) : Option (String × String) := (o.value? p).map fun value => (p.name, value)

def pairs (o : RenderOptions) : List (String × String) := Parameter.all.filterMap o.pair?

theorem lastValue?_filterMap (o : RenderOptions) (p : Parameter) (ps : List Parameter) :
    p.lastValue? (ps.filterMap o.pair?) = if p ∈ ps then o.value? p else none := by
  induction ps with
  | nil => rfl
  | cons q ps ih =>
    cases hvalue : o.value? q with
    | none =>
      rw [List.filterMap_cons_none (by rw [pair?, hvalue, Option.map_none]), ih]
      by_cases hp : p = q
      · rw [hp, hvalue, ite_self, ite_self]
      · simp only [List.mem_cons, hp, false_or]
    | some value =>
      rw [List.filterMap_cons_some (by rw [pair?, hvalue, Option.map_some]), Parameter.lastValue?_cons, ih,
        Parameter.lastValue?_singleton]
      by_cases hp : p = q
      · subst hp
        rw [if_pos p.name_mem_names, if_pos List.mem_cons_self, hvalue]
        split <;> rfl
      · rw [if_neg fun h => hp (Parameter.eq_of_mem_names h q.name_mem_names), Option.or_none]
        simp only [List.mem_cons, hp, false_or]

theorem lastValue?_pairs (o : RenderOptions) (p : Parameter) : p.lastValue? o.pairs = o.value? p :=
  (lastValue?_filterMap o p Parameter.all).trans (if_pos p.mem_all)

private theorem text_orElse {own : Option String} (h : own ≠ some "") (other : Option String) :
    Field.text (own <|> other) = own.elim (.text other) fun value => .text ((some value).filter (!·.isEmpty)) := by
  cases own with
  | none => rfl
  | some value =>
    have hfilled : (some value).filter (!·.isEmpty) = some value := by simpa [Option.filter] using h
    exact congrArg Field.text hfilled.symm

private theorem list_getD (own : Option String) (other : List String) :
    Field.list ((own.map items).getD other) =
      own.elim (.list other) fun value => .list (((some value).map items).getD []) := by
  cases own <;> rfl

private theorem switch_or (on other : Bool) :
    Field.switch (on || other) =
      (if on then some "true" else none).elim (.switch other) fun value => .switch ((some value).any isTrue) := by
  cases on
  · rfl
  · exact congrArg Field.switch ((Bool.true_or other).trans (by decide))

/-- What the options give replaces the field of the query, and no other field. -/
theorem field_request (hformat : o.format ≠ some "") (hdelimiter : o.delimiter ≠ some "")
    (hcallback : o.callback ≠ some "") (p : Parameter) :
    o.request.field p =
      (o.value? p).elim ((Request.ofQuery (o.query.getD "")).field p) fun value => p.read (some value) := by
  have hquery : (o.query.map Request.ofQuery).getD {} = Request.ofQuery (o.query.getD "") := by
    cases o.query <;> rfl
  rw [request, hquery]
  cases p with
  | format => exact text_orElse hformat _
  | includeDocs => exact switch_or o.includeDocs _
  | keys => exact list_getD o.keys _
  | labels => exact list_getD o.labels _
  | delimiter => exact text_orElse hdelimiter _
  | callback => exact text_orElse hcallback _
  | debug => exact switch_or o.debug _

/-- The request of the options is that of the query with an ampersand and the form encoding of the options behind
it, whatever is in the query. So an option sets its own field, over the query, and no other. Only an empty text is
not the same in both: as an option it is a value, and in a query it is none. -/
theorem request_eq_ofQuery (o : RenderOptions) (hformat : o.format ≠ some "") (hdelimiter : o.delimiter ≠ some "")
    (hcallback : o.callback ≠ some "") :
    let query := o.query.getD ""
    o.request = Request.ofQuery (query ++ "&" ++ FormEncoding.encode o.pairs) ∧
      (∀ p value, o.value? p = some value → o.request.field p = p.read (some value)) ∧
      ∀ p, o.value? p = none → o.request.field p = (Request.ofQuery query).field p := by
  intro query
  have hfield := field_request hformat hdelimiter hcallback
  refine ⟨?_, fun p value h => by rw [hfield, h, Option.elim_some], fun p h => by rw [hfield, h, Option.elim_none]⟩
  obtain ⟨pairs, hpairs, hback⟩ := Request.exists_pairs_of_query query
  refine Request.ext_field fun p => ?_
  rw [hfield, hback, FormEncoding.decode_encode, Request.field_ofPairs, Parameter.lastValue?_append, lastValue?_pairs]
  cases o.value? p with
  | none => rw [Option.none_or, ← Request.field_ofPairs, ← hpairs, Option.elim_none]
  | some value => rw [Option.some_or, Option.elim_some]

/-- Short names, a switch that is turned off and a broken percent sequence in the query, and separators in a value. -/
theorem request_eq_ofQuery_broken :
    let o : RenderOptions :=
      { query := some "?k=x&o=xml&debug=no&callback=%2", format := some "csv", keys := some " a, b&c=é", debug := true }
    (o.format ≠ some "" ∧ o.delimiter ≠ some "" ∧ o.callback ≠ some "") ∧
      o.request = Request.ofQuery
        "?k=x&o=xml&debug=no&callback=%2&output_format=csv&export_keys=+a%2C+b%26c%3D%C3%A9&debug=true" ∧
      o.request = { format := some "csv", keys := ["a", "b&c=é"], callback := some "%2", debug := true } := by
  intro o
  have hfilled : o.format ≠ some "" ∧ o.delimiter ≠ some "" ∧ o.callback ≠ some "" := by decide
  obtain ⟨hquery, -⟩ := request_eq_ofQuery o hfilled.1 hfilled.2.1 hfilled.2.2
  refine ⟨hfilled, hquery.trans (congrArg Request.ofQuery ?_), ?_⟩
  · decide
  · decide +kernel

end DocExport.CommandLine.RenderOptions
