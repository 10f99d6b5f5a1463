import DocExport.Request.Callback

/-! Names of functions, by their pieces. A text is read as a name exactly if all of its pieces between the
dots are identifiers. -/
namespace DocExport.Callback
variable {first : Char} {rest chars : List Char}

/-- A letter, an underscore or a dollar sign, and then only these and digits, all of them ASCII. -/
def IsIdentifier (chars : List Char) : Prop :=
  ∃ first rest, chars = first :: rest ∧ isStart first ∧ ∀ c ∈ rest, isContinue c

/-- An identifier, or more of them with dots in between. -/
def IsFunctionName (text : String) : Prop := ∀ piece ∈ text.toList.splitOn '.', IsIdentifier piece

theorem isIdentifier_cons_iff : IsIdentifier (first :: rest) ↔ isStart first ∧ ∀ c ∈ rest, isContinue c := by
  constructor
  · rintro ⟨_, _, heq, h⟩
    cases heq
    exact h
  · exact fun h => ⟨first, rest, rfl, h⟩

theorem not_isIdentifier_nil : ¬ IsIdentifier [] := nofun

/-- Pieces of which the first is read from its middle on. -/
private def EndsName : List (List Char) → Prop
  | [] => False
  | piece :: pieces => (∀ c ∈ piece, isContinue c) ∧ ∀ piece ∈ pieces, IsIdentifier piece

private theorem accepts_iff (chars : List Char) :
    (Position.start.accepts chars ↔ ∀ piece ∈ chars.splitOn '.', IsIdentifier piece) ∧
      (Position.inside.accepts chars ↔ EndsName (chars.splitOn '.')) := by
  induction chars with
  | nil => simp [Position.accepts, EndsName, not_isIdentifier_nil]
  | cons c chars ih =>
    obtain ⟨piece, pieces, hpieces⟩ := List.exists_cons_of_ne_nil (List.splitOn_ne_nil '.' chars)
    rw [hpieces] at ih
    simp only [List.splitOn_cons_eq_if_modifyHead, beq_iff_eq, hpieces]
    by_cases hdot : c = '.'
    · subst hdot
      constructor
      · simp [Position.accepts, Position.next?, isStart, not_isIdentifier_nil]
      · simp [Position.accepts, Position.next?, EndsName, ih.1]
    · rw [if_neg hdot, List.modifyHead_cons]
      constructor
      · by_cases hc : isStart c <;>
          simp [Position.accepts, Position.next?, hc, ih.2, EndsName, isIdentifier_cons_iff]
      · by_cases hc : isContinue c <;>
          simp [Position.accepts, Position.next?, hdot, hc, ih.2, EndsName]

theorem isName_iff (text : String) : isName text ↔ IsFunctionName text := (accepts_iff text.toList).1

end DocExport.Callback
