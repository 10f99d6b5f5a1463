import Mathlib.Computability.RegularExpressions
import DocExport.Proofs.FunctionName
import DocExport.Request.Basic

/-! Names of functions as a pattern over whole texts: identifiers with dots between them. What the pattern
matches is what is read as a name, and what a request may ask to be called. -/
namespace DocExport.Callback
variable {chars text : List Char}

/-- One of some characters. -/
def oneOf (chars : List Char) : RegularExpression Char :=
  chars.foldr (fun c others => .char c + others) 0

def startChars : List Char := "ABCDEFGHIJKLMNOPQRSTUVWXYZabcdefghijklmnopqrstuvwxyz_$".toList

def continueChars : List Char := startChars ++ "0123456789".toList

/-- The pattern `[A-Za-z_$][A-Za-z0-9_$]*`. -/
def identifierPattern : RegularExpression Char := oneOf startChars * (oneOf continueChars).star

/-- The pattern `^[A-Za-z_$][A-Za-z0-9_$]*(\.[A-Za-z_$][A-Za-z0-9_$]*)*$`. -/
def namePattern : RegularExpression Char := identifierPattern * (.char '.' * identifierPattern).star

theorem mem_oneOf_iff : text ∈ (oneOf chars).matches' ↔ ∃ c ∈ chars, text = [c] := by
  induction chars with
  | nil => simp [oneOf, Language.notMem_zero]
  | cons c chars ih =>
    have hcons : oneOf (c :: chars) = .char c + oneOf chars := rfl
    rw [hcons, RegularExpression.matches'_add, Language.mem_add, ih, List.exists_mem_cons_iff]
    rfl

theorem mem_star_oneOf_iff : text ∈ (oneOf chars).star.matches' ↔ ∀ c ∈ text, c ∈ chars := by
  rw [RegularExpression.matches'_star, Language.mem_kstar]
  constructor
  · rintro ⟨pieces, rfl, hpieces⟩ c hc
    obtain ⟨piece, hpiece, hmem⟩ := List.mem_flatten.mp hc
    obtain ⟨own, hown, rfl⟩ := mem_oneOf_iff.mp (hpieces piece hpiece)
    exact List.mem_singleton.mp hmem ▸ hown
  · intro h
    refine ⟨text.map ([·]), ?_, ?_⟩
    · rw [← List.flatMap_def, List.flatMap_singleton']
    · intro piece hpiece
      obtain ⟨c, hc, rfl⟩ := List.mem_map.mp hpiece
      exact mem_oneOf_iff.mpr ⟨c, h c hc, rfl⟩

private theorem toNat_lt_of_isAlpha {c : Char} (h : c.isAlpha) : c.toNat < 128 := by
  rcases Bool.or_eq_true_iff.mp h with hupper | hlower
  · obtain ⟨-, hle⟩ : c.val ≥ 'A'.val ∧ c.val ≤ 'Z'.val := of_decide_eq_true hupper
    exact Nat.lt_of_le_of_lt (UInt32.le_iff_toNat_le.mp hle) (by decide)
  · have hle : c.val ≤ 'z'.val := of_decide_eq_true (Bool.and_eq_true_iff.mp hlower).2
    exact Nat.lt_of_le_of_lt (UInt32.le_iff_toNat_le.mp hle) (by decide)

private theorem toNat_lt_of_isDigit {c : Char} (h : c.isDigit) : c.toNat < 128 := by
  have hle : c.val ≤ '9'.val := of_decide_eq_true (Bool.and_eq_true_iff.mp h).2
  exact Nat.lt_of_le_of_lt (UInt32.le_iff_toNat_le.mp hle) (by decide)

private theorem toNat_lt_of_isContinue {c : Char} (h : isContinue c) : c.toNat < 128 := by
  simp only [isContinue, isStart, Bool.or_eq_true, decide_eq_true_eq] at h
  rcases h with ((h | rfl) | rfl) | h
  · exact toNat_lt_of_isAlpha h
  · decide
  · decide
  · exact toNat_lt_of_isDigit h

/-- A class of characters of ASCII is known by its members there. -/
private theorem iff_mem_of_ascii {p : Char → Bool} (hp : ∀ c, p c → c.toNat < 128)
    (hmem : ∀ n < 128, p (Char.ofNat n) → Char.ofNat n ∈ chars) (hchars : chars.all p) (c : Char) :
    p c ↔ c ∈ chars := by
  refine ⟨fun h => ?_, List.all_eq_true.mp hchars c⟩
  have hc := hmem c.toNat (hp c h)
  rw [Char.ofNat_toNat] at hc
  exact hc h

theorem isStart_iff (c : Char) : isStart c ↔ c ∈ startChars := by
  refine iff_mem_of_ascii (fun c h => toNat_lt_of_isContinue ?_) (by decide +kernel) (by decide) c
  rw [isContinue, h, Bool.true_or]

theorem isContinue_iff (c : Char) : isContinue c ↔ c ∈ continueChars :=
  iff_mem_of_ascii (fun _ => toNat_lt_of_isContinue) (by decide +kernel) (by decide) c

theorem mem_identifierPattern_iff : text ∈ identifierPattern.matches' ↔ IsIdentifier text := by
  rw [identifierPattern, RegularExpression.matches'_mul, Language.mem_mul]
  constructor
  · rintro ⟨head, hhead, rest, hrest, rfl⟩
    obtain ⟨first, hfirst, rfl⟩ := mem_oneOf_iff.mp hhead
    have hrest := mem_star_oneOf_iff.mp hrest
    exact ⟨first, rest, rfl, (isStart_iff first).mpr hfirst, fun c hc => (isContinue_iff c).mpr (hrest c hc)⟩
  · rintro ⟨first, rest, rfl, hfirst, hrest⟩
    refine ⟨[first], mem_oneOf_iff.mpr ⟨first, (isStart_iff first).mp hfirst, rfl⟩, rest, ?_, rfl⟩
    exact mem_star_oneOf_iff.mpr fun c hc => (isContinue_iff c).mp (hrest c hc)

theorem intercalate_cons_eq (first : List Char) (more : List (List Char)) :
    ['.'].intercalate (first :: more) = first ++ (more.map ('.' :: ·)).flatten := by
  induction more generalizing first with
  | nil => simp
  | cons next more ih =>
    rw [List.intercalate_cons_cons, ih]
    simp

theorem dot_not_mem_of_isIdentifier (h : IsIdentifier text) : '.' ∉ text := by
  obtain ⟨first, rest, rfl, hfirst, hrest⟩ := h
  intro hdot
  rcases List.mem_cons.mp hdot with rfl | hdot
  · exact absurd hfirst (by decide)
  · exact absurd (hrest '.' hdot) (by decide)

/-- A text is its pieces, with a dot in front of each but the first. -/
theorem exists_splitOn_dot (text : List Char) :
    ∃ first more, text.splitOn '.' = first :: more ∧ text = first ++ (more.map ('.' :: ·)).flatten := by
  obtain ⟨first, more, hsplit⟩ := List.exists_cons_of_ne_nil (List.splitOn_ne_nil '.' text)
  have htext : ['.'].intercalate (text.splitOn '.') = text := List.intercalate_splitOn '.'
  rw [hsplit, intercalate_cons_eq] at htext
  exact ⟨first, more, hsplit, htext.symm⟩

theorem mem_dotted_iff :
    text ∈ (RegularExpression.char '.' * identifierPattern).matches' ↔ ∃ name, '.' :: name = text ∧ IsIdentifier name := by
  rw [RegularExpression.matches'_mul, Language.mem_mul]
  constructor
  · rintro ⟨dot, rfl, name, hname, rfl⟩
    exact ⟨name, rfl, mem_identifierPattern_iff.mp hname⟩
  · rintro ⟨name, rfl, hname⟩
    exact ⟨['.'], rfl, name, mem_identifierPattern_iff.mpr hname, rfl⟩

theorem mem_star_dotted_iff :
    text ∈ (RegularExpression.char '.' * identifierPattern).star.matches' ↔
      ∃ names : List (List Char), text = (names.map ('.' :: ·)).flatten ∧ ∀ name ∈ names, IsIdentifier name := by
  rw [RegularExpression.matches'_star, Language.mem_kstar]
  constructor
  · rintro ⟨pieces, rfl, hpieces⟩
    have hrange : ∀ piece ∈ pieces, piece ∈ Set.range ('.' :: · : List Char → List Char) := by
      intro piece hpiece
      obtain ⟨name, heq, -⟩ := mem_dotted_iff.mp (hpieces piece hpiece)
      exact ⟨name, heq⟩
    obtain ⟨names, rfl⟩ : pieces ∈ Set.range (List.map ('.' :: ·)) := Set.range_list_map _ ▸ hrange
    refine ⟨names, rfl, fun name hname => ?_⟩
    obtain ⟨own, heq, hown⟩ := mem_dotted_iff.mp (hpieces _ (List.mem_map_of_mem hname))
    exact List.cons_injective heq ▸ hown
  · rintro ⟨names, rfl, hnames⟩
    refine ⟨_, rfl, List.forall_mem_map.mpr fun name hname => ?_⟩
    exact mem_dotted_iff.mpr ⟨name, rfl, hnames name hname⟩

/-- What the pattern matches from end to end are identifiers with dots between them. -/
theorem mem_namePattern_iff : text ∈ namePattern.matches' ↔ ∀ piece ∈ text.splitOn '.', IsIdentifier piece := by
  rw [namePattern, RegularExpression.matches'_mul, Language.mem_mul]
  constructor
  · rintro ⟨first, hfirst, tail, htail, rfl⟩
    obtain ⟨names, rfl, hnames⟩ := mem_star_dotted_iff.mp htail
    have hall : ∀ piece ∈ first :: names, IsIdentifier piece :=
      List.forall_mem_cons.mpr ⟨mem_identifierPattern_iff.mp hfirst, hnames⟩
    have hdotless : ∀ piece ∈ first :: names, '.' ∉ piece :=
      fun piece hpiece => dot_not_mem_of_isIdentifier (hall piece hpiece)
    rw [← intercalate_cons_eq, List.splitOn_intercalate '.' hdotless (List.cons_ne_nil _ _)]
    exact hall
  · intro h
    obtain ⟨first, more, hsplit, htext⟩ := exists_splitOn_dot text
    rw [hsplit] at h
    obtain ⟨hfirst, hmore⟩ := List.forall_mem_cons.mp h
    exact ⟨first, mem_identifierPattern_iff.mpr hfirst, _, mem_star_dotted_iff.mpr ⟨more, rfl, hmore⟩, htext.symm⟩

/-- A character of a text is a dot or in one of the pieces. -/
theorem mem_piece_of_mem {c : Char} (h : c ∈ text) : c = '.' ∨ ∃ piece ∈ text.splitOn '.', c ∈ piece := by
  obtain ⟨first, more, hsplit, htext⟩ := exists_splitOn_dot text
  rw [htext, List.mem_append, List.mem_flatten] at h
  rw [hsplit]
  rcases h with hfirst | ⟨dotted, hdotted, hc⟩
  · exact .inr ⟨first, List.mem_cons_self, hfirst⟩
  · obtain ⟨piece, hpiece, rfl⟩ := List.mem_map.mp hdotted
    exact (List.mem_cons.mp hc).imp_right fun hc => ⟨piece, List.mem_cons_of_mem _ hpiece, hc⟩

theorem isContinue_of_mem {c : Char} (h : IsIdentifier text) (hc : c ∈ text) : isContinue c := by
  obtain ⟨first, rest, rfl, hfirst, hrest⟩ := h
  rcases List.mem_cons.mp hc with rfl | hc
  · rw [isContinue, hfirst, Bool.true_or]
  · exact hrest c hc

end DocExport.Callback

namespace DocExport.Request
open Callback

/-- A request may ask to be wrapped in a call of exactly the texts whose pieces between the dots are identifiers,
which are those that the pattern matches from their first to their last character. Every other text is refused.
So a text that is not refused has letters and digits of ASCII, underscores, dollar signs and dots only. -/
theorem validate_callback (request : Request) (name : String) :
    let called : Request := { request with callback := some name }
    let pieces := name.toList.splitOn '.'
    (called.validate = .ok () ↔ pieces ≠ [] ∧ ∀ piece ∈ pieces, IsIdentifier piece) ∧
      (called.validate = .ok () ↔ name.toList ∈ namePattern.matches') ∧
      (called.validate = .ok () ∨ called.validate = .error (.callback name)) ∧
      (called.validate = .ok () → ∀ c ∈ name.toList, c.isAlphanum ∨ c = '_' ∨ c = '$' ∨ c = '.') := by
  intro called pieces
  have hvalidate : called.validate = if isName name then .ok () else .error (.callback name) := rfl
  have hok : called.validate = .ok () ↔ ∀ piece ∈ pieces, IsIdentifier piece := by
    have hname : isName name ↔ ∀ piece ∈ pieces, IsIdentifier piece := isName_iff name
    rw [hvalidate, ← hname]
    split <;> simp_all
  refine ⟨?_, hok.trans mem_namePattern_iff.symm, ?_, fun h c hc => ?_⟩
  · rw [hok, and_iff_right (List.splitOn_ne_nil '.' name.toList)]
  · rw [hvalidate]
    exact ite_eq_or_eq ..
  · obtain rfl | ⟨piece, hpiece, hc⟩ := mem_piece_of_mem hc
    · exact .inr (.inr (.inr rfl))
    · have hcontinue := isContinue_of_mem (hok.mp h piece hpiece) hc
      simp only [isContinue, isStart, Bool.or_eq_true, decide_eq_true_eq] at hcontinue
      rw [Char.isAlphanum, Bool.or_eq_true]
      tauto

/-- A line end behind a name is no part of one. -/
theorem validate_callback_line_end :
    let called : Request := { callback := some "jQuery.cb_1$" }
    let broken : Request := { callback := some "jQuery.cb_1$\n" }
    called.validate = .ok () ∧ "jQuery.cb_1$".toList ∈ namePattern.matches' ∧
      broken.validate = .error (.callback "jQuery.cb_1$\n") ∧ "jQuery.cb_1$\n".toList ∉ namePattern.matches' := by
  intro called broken
  have hok : called.validate = .ok () := by decide
  have herror : broken.validate = .error (.callback "jQuery.cb_1$\n") := by decide
  obtain ⟨-, hpattern, -⟩ := validate_callback {} "jQuery.cb_1$"
  obtain ⟨-, hbroken, -⟩ := validate_callback {} "jQuery.cb_1$\n"
  refine ⟨hok, hpattern.mp hok, herror, fun h => ?_⟩
  cases herror.symm.trans (hbroken.mpr h)

end DocExport.Request
