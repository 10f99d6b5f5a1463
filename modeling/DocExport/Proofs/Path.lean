import DocExport.Document.Path

/-! Path texts and their segments. Cutting off one segment after the other gives the same segments
as splitting the text at once, a trail without dots is what its text splits into, and a decimal
position is an index of that value. -/
namespace DocExport.Path

private theorem ne_dot {chars : List Char} (h : '.' ∉ chars) : ∀ c ∈ chars, decide (c ≠ '.') = true := by
  intro c hc
  simpa using fun he : c = '.' => h (he ▸ hc)

theorem cut_of_not_mem {text : String} (h : '.' ∉ text.toList) : cut text = (text, none) := by
  have ht : text.toList = text.toList ++ [] := (List.append_nil _).symm
  rw [cut, ht, List.takeWhile_append_of_pos (ne_dot h), List.dropWhile_append_of_pos (ne_dot h)]
  simp

theorem cut_of_append {text : String} {head rest : List Char} (h : '.' ∉ head)
    (ht : text.toList = head ++ '.' :: rest) :
    cut text = (String.ofList head, if rest.isEmpty then none else some (String.ofList rest)) := by
  simp only [cut, ht, List.takeWhile_append_of_pos (ne_dot h), List.dropWhile_append_of_pos (ne_dot h)]
  simp

/-- A text has no dot, or a first one. -/
private theorem dot_cases (text : String) :
    '.' ∉ text.toList ∨ ∃ head rest, text.toList = head ++ '.' :: rest ∧ '.' ∉ head := by
  by_cases h : '.' ∈ text.toList
  · exact .inr (List.eq_append_cons_of_mem h)
  · exact .inl h

theorem length_of_cut_eq_some {text head rest : String} (h : cut text = (head, some rest)) :
    rest.toList.length < text.toList.length := by
  rcases dot_cases text with hd | ⟨left, right, ht, hd⟩
  · rw [cut_of_not_mem hd] at h
    cases h
  · rw [cut_of_append hd ht] at h
    cases right with
    | nil => simp at h
    | cons c right =>
      simp only [List.isEmpty_cons, Bool.false_eq_true, if_false, Prod.mk.injEq, Option.some.injEq] at h
      rw [← h.2, ht]
      simp
      omega

/-- The segments that are cut off a path text one after the other. -/
def pieces (text : String) : List String :=
  match _h : cut text with
  | (head, none) => [head]
  | (head, some rest) => head :: pieces rest
termination_by text.toList.length
decreasing_by exact length_of_cut_eq_some _h

/-- The pieces between the dots less an empty last one. -/
private def trimmed (pieces : List String) : List String :=
  if 1 < pieces.length ∧ pieces.getLast? = some "" then pieces.dropLast else pieces

private theorem segments_eq_trimmed (text : String) :
    (ofText text).segments = trimmed ((text.toList.splitOn '.').map String.ofList) := by
  simp only [ofText, trimmed]
  split <;> rfl

private theorem trimmed_cons (head : String) {tail : List String} (h : tail ≠ []) (hone : tail ≠ [""]) :
    trimmed (head :: tail) = head :: trimmed tail := by
  obtain ⟨next, more, rfl⟩ := List.exists_cons_of_ne_nil h
  cases more with
  | nil => simp_all [trimmed]
  | cons second more =>
    by_cases hl : (second :: more).getLast? = some "" <;> simp [trimmed, hl]

private theorem segments_of_append {text : String} {head rest : List Char} (h : '.' ∉ head)
    (ht : text.toList = head ++ '.' :: rest) :
    (ofText text).segments = String.ofList head ::
      (if rest.isEmpty then [] else (ofText (String.ofList rest)).segments) := by
  have hs : ((text.toList.splitOn '.').map String.ofList) =
      String.ofList head :: (rest.splitOn '.').map String.ofList := by
    rw [ht, List.splitOn_append_cons_self_of_not_mem h, List.map_cons]
  rw [segments_eq_trimmed, hs]
  cases rest with
  | nil => rfl
  | cons c rest =>
    have hne : ((c :: rest).splitOn '.').map String.ofList ≠ [] := by
      simp [List.splitOn_ne_nil]
    have hone : ((c :: rest).splitOn '.').map String.ofList ≠ [""] := by
      intro he
      have hj : ['.'].intercalate ((c :: rest).splitOn '.') = c :: rest := List.intercalate_splitOn '.'
      obtain ⟨piece, hp, hpe⟩ := List.map_eq_singleton_iff.mp he
      rw [hp, List.intercalate_singleton] at hj
      simp [hj] at hpe
    rw [trimmed_cons _ hne hone, segments_eq_trimmed, String.toList_ofList]
    rfl

/-- Cutting off one segment after the other, in any path text, gives all of its segments. -/
theorem pieces_eq_segments (text : String) : pieces text = (ofText text).segments := by
  fun_induction pieces text with
  | case1 text head h =>
    rcases dot_cases text with hd | ⟨left, right, ht, hd⟩
    · rw [cut_of_not_mem hd] at h
      cases h
      simp [segments_eq_trimmed, List.splitOn_eq_singleton hd, trimmed]
    · rw [cut_of_append hd ht] at h
      rw [segments_of_append hd ht]
      cases right <;> simp_all
  | case2 text head rest h ih =>
    rcases dot_cases text with hd | ⟨left, right, ht, hd⟩
    · rw [cut_of_not_mem hd] at h
      cases h
    · rw [cut_of_append hd ht] at h
      rw [segments_of_append hd ht, ih]
      cases right <;> simp_all

theorem segments_ne_nil (text : String) : (ofText text).segments ≠ [] := by
  rw [← pieces_eq_segments, pieces]
  split <;> simp

theorem splitOn_join {trail : List String} (hne : trail ≠ []) (hdot : ∀ s ∈ trail, '.' ∉ s.toList) :
    (join trail).toList.splitOn '.' = trail.map String.toList := by
  rw [join, String.toList_intercalate]
  apply List.splitOn_intercalate
  · simpa using hdot
  · simpa using hne

/-- Trails without dots have texts of their own. -/
theorem join_inj {a b : List String} (ha : a ≠ []) (hb : b ≠ []) (hdota : ∀ s ∈ a, '.' ∉ s.toList)
    (hdotb : ∀ s ∈ b, '.' ∉ s.toList) (h : join a = join b) : a = b := by
  have hmap : a.map String.toList = b.map String.toList := by
    rw [← splitOn_join ha hdota, ← splitOn_join hb hdotb, h]
  exact (List.map_inj_right fun _ _ => String.toList_inj.mp).mp hmap

/-- A trail whose segments have no dot is read back from its text, unless it ends in an empty
segment that is not the only one. -/
theorem segments_ofText_join {trail : List String} (hne : trail ≠ []) (hdot : ∀ s ∈ trail, '.' ∉ s.toList)
    (hlast : trail.length = 1 ∨ trail.getLast? ≠ some "") : (ofText (join trail)).segments = trail := by
  have hm : (trail.map String.toList).map String.ofList = trail := by simp
  rw [segments_eq_trimmed, splitOn_join hne hdot, hm, trimmed, if_neg]
  rintro ⟨hlen, hl⟩
  rcases hlast with h1 | h2
  · omega
  · exact h2 hl

private theorem intercalate_concat {pieces : List (List Char)} (hne : pieces ≠ []) (last : List Char) :
    ['.'].intercalate (pieces ++ [last]) = ['.'].intercalate pieces ++ '.' :: last := by
  induction pieces with
  | nil => exact absurd rfl hne
  | cons piece pieces ih =>
    cases pieces with
    | nil => simp [List.intercalate_cons_cons]
    | cons next pieces =>
      have hrest := ih (List.cons_ne_nil next pieces)
      rw [List.cons_append] at hrest ⊢
      rw [List.cons_append, List.intercalate_cons_cons, List.intercalate_cons_cons, hrest]
      simp

/-- An empty last piece that is not the only one comes from a dot at the end. -/
private theorem getLast?_eq_dot_iff (text : String) :
    1 < ((text.toList.splitOn '.').map String.ofList).length ∧
        ((text.toList.splitOn '.').map String.ofList).getLast? = some "" ↔
      text.toList.getLast? = some '.' := by
  constructor
  · rintro ⟨hlength, hempty⟩
    have hpieces : ['.'].intercalate (text.toList.splitOn '.') = text.toList := List.intercalate_splitOn '.'
    have hlast : (text.toList.splitOn '.').getLast? = some [] := by simpa using hempty
    obtain ⟨init, hinit⟩ := List.getLast?_eq_some_iff.mp hlast
    have hne : init ≠ [] := by
      rintro rfl
      simp [hinit] at hlength
    rw [hinit, intercalate_concat hne] at hpieces
    rw [← hpieces, List.getLast?_concat]
  · intro h
    obtain ⟨front, hfront⟩ := List.getLast?_eq_some_iff.mp h
    have hpieces : text.toList.splitOn '.' = front.splitOn '.' ++ [[]] := by
      rw [hfront, List.splitOn_append_cons_self, List.splitOn_nil]
    simp [hpieces, Nat.pos_iff_ne_zero, List.splitOn_ne_nil]

/-- A text that does not end in a dot is that of its segments. -/
theorem join_segments_ofText {text : String} (h : text.toList.getLast? ≠ some '.') :
    join (ofText text).segments = text := by
  have hpieces : ['.'].intercalate (text.toList.splitOn '.') = text.toList := List.intercalate_splitOn '.'
  have hjoin : (join ((text.toList.splitOn '.').map String.ofList)).toList = text.toList := by
    rw [join, String.toList_intercalate, List.map_map]
    simp [hpieces]
  rw [ofText, if_neg (mt (getLast?_eq_dot_iff text).mp h)]
  exact String.toList_inj.mp hjoin

theorem trailingDot_ofText (text : String) : (ofText text).trailingDot = true ↔ text.toList.getLast? = some '.' := by
  rw [← getLast?_eq_dot_iff, ofText]
  split <;> simp_all

theorem segments_of_cut_eq_none {text head : String} (h : cut text = (head, none)) :
    (ofText text).segments = [head] := by
  rw [← pieces_eq_segments, pieces]
  split <;> simp_all

/-- Behind the first dot comes a path of its own. -/
theorem ofText_of_cut_eq_some {text head rest : String} (h : cut text = (head, some rest)) :
    ofText text = ⟨head :: (ofText rest).segments, (ofText rest).trailingDot⟩ := by
  have hsegments : (ofText text).segments = head :: (ofText rest).segments := by
    rw [← pieces_eq_segments, ← pieces_eq_segments, pieces]
    split <;> simp_all
  have hdot : (ofText text).trailingDot = (ofText rest).trailingDot := by
    rw [Bool.eq_iff_iff, trailingDot_ofText, trailingDot_ofText]
    rcases dot_cases text with hd | ⟨left, right, ht, hd⟩
    · rw [cut_of_not_mem hd] at h
      cases h
    · rw [cut_of_append hd ht] at h
      cases right with
      | nil => simp at h
      | cons c right =>
        obtain ⟨-, rfl⟩ : String.ofList left = head ∧ String.ofList (c :: right) = rest := by simpa using h
        simp [ht]
  rw [← hsegments, ← hdot]

theorem isIndex_toString (position : Nat) : isIndex (toString position) = true := by
  have hdigits : (toString position).toList = Nat.toDigits 10 position := by
    rw [Nat.toString_eq_repr, Nat.toList_repr]
  rw [isIndex, hdigits, Bool.and_eq_true, List.all_eq_true]
  exact ⟨by simp, fun c hc => Nat.isDigit_of_mem_toDigits (by decide) (by decide) hc⟩

theorem indexValue_toString (position : Nat) : indexValue (toString position) = position := by
  rw [indexValue, Nat.toString_eq_repr, Nat.toList_repr, Nat.ofDigitChars_ten_toDigits]

theorem dot_not_mem_of_isIndex {segment : String} (h : isIndex segment = true) : '.' ∉ segment.toList := by
  rw [isIndex, Bool.and_eq_true, List.all_eq_true] at h
  exact fun hdot => absurd (h.2 '.' hdot) (by decide)

/-- Whether a segment is an index of two digits or more, the first of them a zero. -/
def isPadded (segment : String) : Bool :=
  isIndex segment && decide (1 < segment.toList.length) && segment.toList.head? == some '0'

private theorem toDigits_of_isDigit {c : Char} (h : c.isDigit = true) :
    c.toNat - '0'.toNat < 10 ∧ Nat.toDigits 10 (c.toNat - '0'.toNat) = [c] := by
  obtain ⟨hlow, hhigh⟩ : 48 ≤ c.toNat ∧ c.toNat ≤ 57 := by
    simp only [Char.isDigit, Bool.and_eq_true, decide_eq_true_eq, ge_iff_le, UInt32.le_iff_toNat_le] at h
    exact h
  have hzero : '0'.toNat = 48 := rfl
  have hlt : c.toNat - '0'.toNat < 10 := by omega
  have hchar : Nat.digitChar (c.toNat - '0'.toNat) = c := by
    apply Char.toNat_inj.mp
    rw [Nat.toNat_digitChar_of_lt_ten hlt]
    omega
  exact ⟨hlt, by rw [Nat.toDigits_of_lt_base hlt, hchar]⟩

/-- More digits behind those of a number that is not zero. -/
private theorem toDigits_append_digits {digits : List Char} (hdigits : ∀ c ∈ digits, c.isDigit = true) {value : Nat}
    (hvalue : 0 < value) :
    Nat.toDigits 10 value ++ digits = Nat.toDigits 10 (Nat.ofDigitChars 10 digits value) := by
  induction digits generalizing value with
  | nil => rw [List.append_nil, Nat.ofDigitChars_nil]
  | cons c digits ih =>
    obtain ⟨hlt, hc⟩ := toDigits_of_isDigit (hdigits c List.mem_cons_self)
    have hnext : Nat.toDigits 10 value ++ [c] = Nat.toDigits 10 (10 * value + (c.toNat - '0'.toNat)) := by
      rw [← Nat.toDigits_append_toDigits (by decide) hvalue hlt, hc]
    calc
      Nat.toDigits 10 value ++ c :: digits = (Nat.toDigits 10 value ++ [c]) ++ digits := by simp
      _ = Nat.toDigits 10 (10 * value + (c.toNat - '0'.toNat)) ++ digits := by rw [hnext]
      _ = Nat.toDigits 10 (Nat.ofDigitChars 10 (c :: digits) value) := by
        rw [ih (fun c hc => hdigits c (List.mem_cons_of_mem _ hc)) (by omega), Nat.ofDigitChars_cons]

/-- An index without zeros in front is the decimal spelling of its value. -/
theorem toString_indexValue {segment : String} (hindex : isIndex segment = true)
    (hpad : isPadded segment = false) : toString (indexValue segment) = segment := by
  rw [← String.toList_inj, Nat.toString_eq_repr, Nat.toList_repr, indexValue]
  rw [isPadded, hindex, Bool.true_and] at hpad
  simp only [isIndex, Bool.and_eq_true, Bool.not_eq_true', List.isEmpty_eq_false_iff, List.all_eq_true] at hindex
  obtain ⟨c, digits, hchars⟩ := List.exists_cons_of_ne_nil hindex.1
  rw [hchars] at hpad ⊢
  obtain ⟨hc, hdigits⟩ := List.forall_mem_cons.mp (hchars ▸ hindex.2)
  obtain ⟨-, hfirst⟩ := toDigits_of_isDigit hc
  rw [Nat.ofDigitChars_cons, Nat.mul_zero, Nat.zero_add]
  cases digits with
  | nil => rw [Nat.ofDigitChars_nil, hfirst]
  | cons next digits =>
    have hpos : 0 < c.toNat - '0'.toNat := by
      refine Nat.pos_of_ne_zero fun hzero => ?_
      rw [hzero, Nat.toDigits_zero] at hfirst
      rw [← List.singleton_inj.mp hfirst] at hpad
      simp at hpad
    rw [← toDigits_append_digits hdigits hpos, hfirst, List.singleton_append]

end DocExport.Path
