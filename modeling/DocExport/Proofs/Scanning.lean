import DocExport.Json.Scan
import DocExport.Proofs.Spelling
import Mathlib.Data.List.TakeWhile
import Mathlib.Tactic.SplitIfs

/-! Scanning what was written. The characters of a token, with text behind them that does not go on
with a word, are read as that token; for numbers this is said of integers that fit a word. -/
namespace DocExport

/-- Integers that fit a signed or an unsigned word of 64 bits. -/
def Number.IsWord : Number → Prop
  | .integer value => leastInteger ≤ value ∧ value ≤ greatestInteger
  | .double _ => False

instance : DecidablePred Number.IsWord
  | .integer value => inferInstanceAs (Decidable (Number.leastInteger ≤ value ∧ value ≤ Number.greatestInteger))
  | .double _ => isFalse id

/-- Scalars whose text tells them exactly. -/
def Scalar.IsExact : Scalar → Prop
  | .number value => value.IsWord
  | _ => True

instance : DecidablePred Scalar.IsExact
  | .number value => inferInstanceAs (Decidable value.IsWord)
  | .null | .bool _ | .string _ => isTrue trivial

namespace Numeral

theorem digitChar_ne_zero : ∀ n < 10, 0 < n → Nat.digitChar n ≠ '0' := by decide

theorem head?_toDigits_ne_zero {n : Nat} (hn : 0 < n) : (Nat.toDigits 10 n).head? ≠ some '0' := by
  induction n using Nat.strongRecOn with
  | ind n ih =>
    by_cases hlt : n < 10
    · rw [Nat.toDigits_of_lt_base hlt, List.head?_cons, ne_eq, Option.some.injEq]
      exact digitChar_ne_zero n hlt hn
    · have hle : 10 ≤ n := Nat.le_of_not_lt hlt
      rw [Nat.toDigits_of_base_le (by decide) hle, List.head?_append_of_ne_nil _ Nat.toDigits_ne_nil]
      exact ih (n / 10) (Nat.div_lt_self hn (by decide)) (Nat.div_pos hle (by decide))

theorem wholeOk_toDigits (n : Nat) : wholeOk (Nat.toDigits 10 n) = true := by
  by_cases hlt : n < 10
  · rw [Nat.toDigits_of_lt_base hlt]
    rfl
  · have hhead := head?_toDigits_ne_zero (n := n) (by omega)
    match hdigits : Nat.toDigits 10 n with
    | [] => exact absurd hdigits Nat.toDigits_ne_nil
    | [_] => rfl
    | first :: _ :: _ =>
      rw [hdigits, List.head?_cons, ne_eq, Option.some.injEq] at hhead
      exact decide_eq_true hhead

theorem isDigit_of_mem_toDigits {n : Nat} : ∀ c ∈ Nat.toDigits 10 n, c.isDigit = true :=
  fun _ hc => Nat.isDigit_of_mem_toDigits (by decide) (by decide) hc

theorem ofUnsigned?_toDigits (negative : Bool) (n : Nat) :
    ofUnsigned? negative (Nat.toDigits 10 n) = some ⟨negative, Nat.toDigits 10 n, [], none⟩ := by
  have htake : (Nat.toDigits 10 n).takeWhile Char.isDigit = Nat.toDigits 10 n :=
    List.takeWhile_eq_self_iff.mpr isDigit_of_mem_toDigits
  have hdrop : (Nat.toDigits 10 n).dropWhile Char.isDigit = [] :=
    List.dropWhile_eq_nil_iff.mpr isDigit_of_mem_toDigits
  simp [ofUnsigned?, htake, hdrop, wholeOk_toDigits, fraction?, exponent?]

theorem ofChars?_integer (value : Int) :
    ofChars? (Number.integer value).chars =
      some ⟨decide (value < 0), Nat.toDigits 10 value.natAbs, [], none⟩ := by
  rw [Number.chars]
  by_cases hneg : value < 0
  · rw [Number.signed, if_pos (by simpa using hneg), ofChars?, ofUnsigned?_toDigits]
    simp [hneg]
  · rw [Number.signed, if_neg (by simpa using hneg)]
    unfold ofChars?
    split
    · rename_i text hminus
      exact absurd (isDigit_of_mem_toDigits '-' (hminus ▸ List.mem_cons_self)) (by decide)
    · rw [ofUnsigned?_toDigits]
      simp [hneg]

theorem number?_toDigits {value : Int} (h : (Number.integer value).IsWord) :
    number? ⟨decide (value < 0), Nat.toDigits 10 value.natAbs, [], none⟩ = some (.integer value) := by
  have hmagnitude : (if value < 0 then -(value.natAbs : Int) else value.natAbs) = value := by omega
  have hzero : ¬ (value < 0 ∧ value = 0) := by omega
  simp only [number?, integer?, natural, Nat.ofDigitChars_ten_toDigits, List.isEmpty_nil, decide_eq_true_eq,
    hmagnitude, and_self, if_true, h.1, h.2, hzero, not_false_eq_true]

end Numeral

namespace Json
variable {c : Char} {word text body after : List Char} {value : Scalar} {token : Token}

/-- Text that does not go on with a word. -/
def Boundary (text : List Char) : Prop := ∀ c ∈ text.head?, isWordChar c = false

theorem isWordChar_of_isNumberChar (h : Number.isNumberChar c) : isWordChar c := by
  simp only [Number.isNumberChar, isWordChar, Char.isAlphanum, Bool.or_eq_true, List.contains_iff_mem, List.mem_cons,
    List.not_mem_nil, or_false, decide_eq_true_eq] at h ⊢
  rcases h with hdigit | rfl | rfl | rfl | rfl
  · exact .inl (.inl (.inl (.inr hdigit)))
  all_goals decide

theorem literal?_null : literal? (scalarChars .null) = some .null := if_pos rfl

theorem literal?_bool (b : Bool) : literal? (scalarChars (.bool b)) = some (.bool b) := by
  cases b with
  | true => rw [scalarChars, literal?, if_neg (by decide), if_pos rfl]
  | false => rw [scalarChars, literal?, if_neg (by decide), if_neg (by decide), if_pos rfl]

theorem literal?_number {n : Number} (h : n.IsWord) : literal? n.chars = some (.number n) := by
  have hne {letters : List Char} (hletters : letters.any fun c => !Number.isNumberChar c) : n.chars ≠ letters := by
    rintro rfl
    obtain ⟨c, hc, hno⟩ := List.any_eq_true.mp hletters
    rw [Number.isNumberChar_of_mem_chars hc] at hno
    cases hno
  cases n with
  | double x => exact h.elim
  | integer value =>
    rw [literal?, if_neg (hne (by decide)), if_neg (hne (by decide)), if_neg (hne (by decide)),
      Numeral.ofChars?_integer, Option.bind_some, Numeral.number?_toDigits h, Option.map_some]

theorem punctuation?_of_isWordChar (h : isWordChar c) : punctuation? c = none := by
  unfold punctuation?
  split
  case h_7 => rfl
  all_goals exact absurd h (by decide)

theorem isSpace_of_isWordChar (h : isWordChar c) : isSpace c = false := by
  rw [← Bool.not_eq_true]
  intro hspace
  simp only [isSpace, Bool.or_eq_true, decide_eq_true_eq] at hspace
  rcases hspace with ((rfl | rfl) | rfl) | rfl
  all_goals exact absurd h (by decide)

theorem scan_cons_of_token? (hspace : isSpace c = false) (h : token? c text = some (token, after)) :
    scan (c :: text) = (scan after).map (token :: ·) := by
  rw [scan, hspace, if_neg Bool.false_ne_true]
  split
  · rename_i token' after' h'
    cases h.symm.trans h'
    rfl
  · rename_i hnone
    cases h.symm.trans hnone

theorem scan_word (hne : word ≠ []) (hword : ∀ c ∈ word, isWordChar c) (hliteral : literal? word = some value)
    (hafter : Boundary after) : scan (word ++ after) = (scan after).map (.scalar value :: ·) := by
  obtain ⟨c, more, rfl⟩ := List.exists_cons_of_ne_nil hne
  obtain ⟨hc, hmore⟩ := List.forall_mem_cons.mp hword
  have hstop : after.takeWhile isWordChar = [] ∧ after.dropWhile isWordChar = after := by
    cases after with
    | nil => exact ⟨rfl, rfl⟩
    | cons d after =>
      have hd := hafter d rfl
      simp [hd]
  have htoken : token? c (more ++ after) = some (.scalar value, after) := by
    have hquote : c ≠ '"' := by
      rintro rfl
      exact absurd hc (by decide)
    rw [token?, punctuation?_of_isWordChar hc]
    simp only [hquote, if_false]
    rw [List.takeWhile_append_of_pos hmore, List.dropWhile_append_of_pos hmore, hstop.1, hstop.2, List.append_nil,
      hliteral, Option.map_some]
  exact scan_cons_of_token? (isSpace_of_isWordChar hc) htoken

theorem stringExtent?_cons (hquote : c ≠ '"') (hbackslash : c ≠ '\\') (rest : List Char) :
    stringExtent? (c :: rest) = (stringExtent? rest).map fun (body, after) => (c :: body, after) := by
  rw [stringExtent?]
  all_goals simp_all

/-- Each digit of a code below 32 in hexadecimal, and the code read from the digits. -/
theorem hexNumber?_digits : ∀ n < 0x20,
    Text.hexNumber? ['0', '0', Nat.digitChar (n / 16), Nat.digitChar (n % 16)] = some n := by decide

theorem digitChar_ne : ∀ n < 16, Nat.digitChar n ≠ '"' ∧ Nat.digitChar n ≠ '\\' := by decide

/-- A character inside a string is passed over as it was written. -/
theorem stringExtent?_escapeChar (c : Char) (rest : List Char) :
    stringExtent? (escapeChar c ++ rest) =
      (stringExtent? rest).map fun (body, after) => (escapeChar c ++ body, after) := by
  unfold escapeChar
  split_ifs with hquote hbackslash _ _ _ _ _ hcontrol
  · rfl
  · rfl
  · rfl
  · rfl
  · rfl
  · rfl
  · rfl
  · have hhigh := digitChar_ne (c.toNat / 16) (by omega)
    have hlow := digitChar_ne (c.toNat % 16) (Nat.mod_lt _ (by decide))
    simp only [List.cons_append, List.nil_append]
    rw [stringExtent?, stringExtent?_cons (by decide) (by decide), stringExtent?_cons (by decide) (by decide),
      stringExtent?_cons hhigh.1 hhigh.2, stringExtent?_cons hlow.1 hlow.2]
    simp only [Option.map_map]
    rfl
  · exact stringExtent?_cons hquote hbackslash rest

theorem stringExtent?_flatMap_escapeChar (text after : List Char) :
    stringExtent? (text.flatMap escapeChar ++ '"' :: after) = some (text.flatMap escapeChar, after) := by
  induction text with
  | nil => rfl
  | cons c text ih => rw [List.flatMap_cons, List.append_assoc, stringExtent?_escapeChar, ih, Option.map_some]

theorem codeUnits?_cons (hbackslash : c ≠ '\\') (hcode : ¬ c.toNat < 0x20) (rest : List Char) :
    codeUnits? (c :: rest) = (codeUnits? rest).map (c.toNat :: ·) := by
  rw [codeUnits?]
  · rw [if_neg (not_or.mpr ⟨hbackslash, hcode⟩)]
  all_goals simp_all

theorem codeUnits?_escape {letter : Char} (hletter : letter ≠ 'u') (h : unescapeChar? letter = some c)
    (rest : List Char) : codeUnits? ('\\' :: letter :: rest) = (codeUnits? rest).map (c.toNat :: ·) := by
  rw [codeUnits?, h]
  · rw [Option.map_eq_bind]
    rfl
  · simp_all

theorem codeUnits?_escapeChar (c : Char) (rest : List Char) :
    codeUnits? (escapeChar c ++ rest) = (codeUnits? rest).map (c.toNat :: ·) := by
  unfold escapeChar
  split_ifs with hquote hbackslash hb ht hn hf hr hcontrol
  · exact codeUnits?_escape (by decide) (by rw [hquote]; rfl) rest
  · exact codeUnits?_escape (by decide) (by rw [hbackslash]; rfl) rest
  · exact codeUnits?_escape (by decide) (by rw [hb]; rfl) rest
  · exact codeUnits?_escape (by decide) (by rw [ht]; rfl) rest
  · exact codeUnits?_escape (by decide) (by rw [hn]; rfl) rest
  · exact codeUnits?_escape (by decide) (by rw [hf]; rfl) rest
  · exact codeUnits?_escape (by decide) (by rw [hr]; rfl) rest
  · simp only [List.cons_append, List.nil_append]
    rw [codeUnits?, hexNumber?_digits _ hcontrol, Option.map_eq_bind]
    rfl
  · exact codeUnits?_cons hbackslash hcontrol rest

theorem codeUnits?_flatMap_escapeChar (text : List Char) :
    codeUnits? (text.flatMap escapeChar) = some (text.map Char.toNat) := by
  induction text with
  | nil => rfl
  | cons c text ih => rw [List.flatMap_cons, codeUnits?_escapeChar, ih, Option.map_some, List.map_cons]

/-- No character is a surrogate. -/
theorem not_surrogate (c : Char) : ¬ (0xD800 ≤ c.toNat ∧ c.toNat < 0xE000) := by
  have hvalid : c.toNat < 0xD800 ∨ 0xDFFF < c.toNat ∧ c.toNat < 0x110000 := c.valid
  omega

theorem joinUnits?_map_toNat (text : List Char) : joinUnits? (text.map Char.toNat) = some text := by
  induction text with
  | nil => rfl
  | cons c text ih =>
    cases text with
    | nil => rw [List.map_singleton, joinUnits?, if_neg (not_surrogate c), Char.ofNat_toNat]
    | cons next text =>
      have hpair : ¬ (0xD800 ≤ c.toNat ∧ c.toNat < 0xDC00 ∧ 0xDC00 ≤ next.toNat ∧ next.toNat < 0xE000) := by
        have hc := not_surrogate c
        omega
      rw [List.map_cons, List.map_cons, joinUnits?, if_neg hpair, if_neg (not_surrogate c), ← List.map_cons, ih,
        Option.map_some, Char.ofNat_toNat]

theorem stringText?_flatMap_escapeChar (text : String) :
    stringText? (text.toList.flatMap escapeChar) = some text := by
  rw [stringText?, codeUnits?_flatMap_escapeChar, Option.bind_some, joinUnits?_map_toNat, Option.map_some,
    String.ofList_toList]

theorem scan_quoted (text : String) (after : List Char) :
    scan (quoted text ++ after) = (scan after).map (.scalar (.string text) :: ·) := by
  have htoken : token? '"' (text.toList.flatMap escapeChar ++ '"' :: after) = some (.scalar (.string text), after) := by
    have hpunctuation : punctuation? '"' = none := rfl
    rw [token?, hpunctuation]
    simp only [if_true]
    rw [stringExtent?_flatMap_escapeChar, Option.bind_some, stringText?_flatMap_escapeChar, Option.map_some]
  rw [quoted, List.cons_append, List.cons_append, List.append_assoc]
  exact scan_cons_of_token? rfl htoken

/-- A scalar is scanned as itself if it is exact and no word goes on behind it. -/
theorem scan_scalar (hexact : value.IsExact) (hafter : Boundary after) :
    scan (scalarChars value ++ after) = (scan after).map (.scalar value :: ·) := by
  cases value with
  | null => exact scan_word (List.cons_ne_nil _ _) (List.all_eq_true.mp rfl) literal?_null hafter
  | bool b => cases b <;> exact scan_word (List.cons_ne_nil _ _) (List.all_eq_true.mp rfl) (literal?_bool _) hafter
  | number n =>
    have hne : n.chars ≠ [] := by
      intro hnil
      have hliteral := literal?_number hexact
      rw [hnil] at hliteral
      cases hliteral
    exact scan_word hne (fun c hc => isWordChar_of_isNumberChar (Number.isNumberChar_of_mem_chars hc))
      (literal?_number hexact) hafter
  | string text => exact scan_quoted text after

/-- Whether a token is a bracket, a comma or a colon. -/
def Token.isMark : Token → Bool
  | .scalar _ => false
  | _ => true

/-- Tokens that start with a mark, if there are any. -/
def Marked (tokens : List Token) : Prop := ∀ token ∈ tokens.head?, token.isMark

theorem marked_nil : Marked [] := nofun

theorem marked_cons {tokens : List Token} (h : token.isMark) : Marked (token :: tokens) := by
  rintro first ⟨rfl⟩
  exact h

/-- Tokens that can be scanned one by one: scalars are exact, and behind a scalar there is a mark. -/
inductive Legible : List Token → Prop where
  | nil : Legible []
  | scalar {value : Scalar} {rest : List Token} (hexact : value.IsExact)
    (hnext : Marked rest) (hrest : Legible rest) : Legible (.scalar value :: rest)
  | mark {token : Token} {rest : List Token} (hmark : token.isMark) (hrest : Legible rest) : Legible (token :: rest)

variable {tokens : List Token}

theorem Legible.tail (h : Legible (token :: tokens)) : Legible tokens := by
  cases h with
  | scalar _ _ hrest => exact hrest
  | mark _ hrest => exact hrest

theorem scan_mark (h : token.isMark) (text : List Char) :
    scan (token.chars ++ text) = (scan text).map (token :: ·) := by
  cases token with
  | scalar value => cases h
  | arrayOpen | arrayClose | objectOpen | objectClose | comma | colon => exact scan_cons_of_token? rfl rfl

theorem boundary_compact (h : Marked tokens) : Boundary (compact tokens) := by
  match tokens with
  | [] => exact nofun
  | .scalar value :: _ => cases h _ rfl
  | .arrayOpen :: _ | .arrayClose :: _ | .objectOpen :: _ | .objectClose :: _ | .comma :: _ | .colon :: _ =>
    rintro c ⟨rfl⟩
    decide

theorem compact_cons (token : Token) (tokens : List Token) :
    compact (token :: tokens) = token.chars ++ compact tokens := rfl

theorem scan_compact (h : Legible tokens) : scan (compact tokens) = some tokens := by
  induction h with
  | nil => rw [compact, List.flatMap_nil, scan]
  | scalar hexact hnext _ ih =>
    rw [compact_cons, Token.chars, scan_scalar hexact (boundary_compact hnext), ih, Option.map_some]
  | mark hmark _ ih => rw [compact_cons, scan_mark hmark, ih, Option.map_some]

theorem scan_spaces {spaces : List Char} (h : ∀ c ∈ spaces, isSpace c) (text : List Char) :
    scan (spaces ++ text) = scan text := by
  induction spaces with
  | nil => rfl
  | cons c spaces ih =>
    obtain ⟨hc, hspaces⟩ := List.forall_mem_cons.mp h
    rw [List.cons_append, scan, if_pos hc, ih hspaces]

theorem scan_newLine (depth : Nat) (text : List Char) : scan (newLine depth ++ text) = scan text := by
  refine scan_spaces (List.forall_mem_cons.mpr ⟨rfl, fun c hc => ?_⟩) text
  rw [List.eq_of_mem_replicate hc]
  rfl

theorem boundary_indented {depth : Nat} (h : Marked tokens) : Boundary (indented depth tokens) := by
  fun_cases indented depth tokens with
  | case1 => exact nofun
  | case10 => cases h _ rfl
  | case2 | case3 | case4 | case5 | case6 | case7 | case8 | case9 =>
    rintro c ⟨rfl⟩
    decide

/-- Blanks and line breaks between tokens are passed over, so the layout makes no difference. -/
theorem scan_indented {depth : Nat} (h : Legible tokens) : scan (indented depth tokens) = some tokens := by
  fun_induction indented depth tokens with
  | case1 => rw [scan]
  | case2 depth rest ih =>
    change scan (Token.arrayOpen.chars ++ (Token.arrayClose.chars ++ indented depth rest)) = _
    rw [scan_mark, scan_mark, ih h.tail.tail, Option.map_some, Option.map_some] <;> rfl
  | case3 depth rest ih =>
    change scan (Token.objectOpen.chars ++ (Token.objectClose.chars ++ indented depth rest)) = _
    rw [scan_mark, scan_mark, ih h.tail.tail, Option.map_some, Option.map_some] <;> rfl
  | case4 depth rest _ _ ih | case5 depth rest _ _ ih | case8 depth rest _ _ ih =>
    rw [List.append_assoc, scan_mark, scan_newLine, ih h.tail, Option.map_some]
    rfl
  | case6 depth rest _ _ ih | case7 depth rest _ _ ih =>
    rw [List.append_assoc, scan_newLine, scan_mark, ih h.tail, Option.map_some]
    rfl
  | case9 depth rest _ _ ih =>
    have hspace : scan (' ' :: indented depth rest) = scan (indented depth rest) :=
      scan_spaces (List.forall_mem_singleton.mpr rfl) _
    rw [scan_mark, hspace, ih h.tail, Option.map_some]
    rfl
  | case10 depth rest value _ _ ih =>
    cases h with
    | scalar hexact hnext hrest =>
      rw [Token.chars, scan_scalar hexact (boundary_indented hnext), ih hrest, Option.map_some]
    | mark hmark _ => cases hmark

end Json
end DocExport
