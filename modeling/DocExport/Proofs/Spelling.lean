import DocExport.Number.Spelling
import Mathlib.Data.List.Basic

/-! The characters of numbers. However a number is spelled, its text has digits, signs, a point and
an exponent mark and nothing else. -/
namespace DocExport

namespace Number

/-- Characters that numbers are spelled with. -/
def isNumberChar (c : Char) : Bool := c.isDigit || ['-', '+', '.', 'e'].contains c

variable {c : Char} {digits : List Char} {first : Int}

theorem isNumberChar_of_mem_toDigits {n : Nat} (h : c ∈ Nat.toDigits 10 n) : isNumberChar c := by
  rw [isNumberChar, Nat.isDigit_of_mem_toDigits (by decide) (by decide) h, Bool.true_or]

theorem isNumberChar_of_mem_significantDigits {n : Nat} (h : c ∈ significantDigits n) : isNumberChar c := by
  unfold significantDigits at h
  split at h
  · rw [List.mem_singleton.mp h]
    decide
  · have hdigits := (List.dropWhile_suffix _).subset (List.mem_reverse.mp h)
    exact isNumberChar_of_mem_toDigits (List.mem_reverse.mp hdigits)

theorem isNumberChar_of_mem_positional (hdigits : ∀ c ∈ digits, isNumberChar c) (h : c ∈ positional digits first) :
    isNumberChar c := by
  have hzeros : ∀ n, ∀ c ∈ List.replicate n '0', isNumberChar c := fun n c hc => by
    rw [List.eq_of_mem_replicate hc]
    decide
  unfold positional at h
  split at h
  · simp only [List.mem_cons, List.mem_append] at h
    rcases h with rfl | rfl | hc | hc
    · decide
    · decide
    · exact hzeros _ c hc
    · exact hdigits c hc
  · simp only [List.mem_append, List.mem_cons] at h
    rcases h with (hc | hc) | rfl | hc
    · exact hdigits c (List.mem_of_mem_take hc)
    · exact hzeros _ c hc
    · decide
    · split at hc
      · exact hzeros 1 c hc
      · exact hdigits c (List.mem_of_mem_drop hc)

theorem isNumberChar_of_mem_exponential (hdigits : ∀ c ∈ digits, isNumberChar c)
    (h : c ∈ exponential 'e' digits first) : isNumberChar c := by
  simp only [exponential, List.mem_append, List.mem_cons] at h
  rcases h with (hc | hc) | rfl | rfl | hc
  · exact hdigits c (List.mem_of_mem_take hc)
  · split at hc
    · exact absurd hc List.not_mem_nil
    · rcases List.mem_cons.mp hc with rfl | hc
      · decide
      · exact hdigits c (List.mem_of_mem_drop hc)
  · decide
  · split <;> decide
  · exact isNumberChar_of_mem_toDigits hc

theorem isNumberChar_of_mem_signed {negative : Bool} (hdigits : ∀ c ∈ digits, isNumberChar c)
    (h : c ∈ signed negative digits) : isNumberChar c := by
  unfold signed at h
  split at h
  · rcases List.mem_cons.mp h with rfl | hc
    · decide
    · exact hdigits c hc
  · exact hdigits c h

theorem isNumberChar_of_mem_chars {value : Number} (h : c ∈ value.chars) : isNumberChar c := by
  cases value with
  | integer n => exact isNumberChar_of_mem_signed (fun c hc => isNumberChar_of_mem_toDigits hc) h
  | double x =>
    refine isNumberChar_of_mem_signed (fun c hc => ?_) h
    unfold Style.spell at hc
    dsimp only at hc
    split at hc
    · exact isNumberChar_of_mem_positional (fun c => isNumberChar_of_mem_significantDigits) hc
    · exact isNumberChar_of_mem_exponential (fun c => isNumberChar_of_mem_significantDigits) hc

end Number

end DocExport
