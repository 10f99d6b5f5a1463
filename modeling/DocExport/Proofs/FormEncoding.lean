import DocExport.Proofs.Utf8
import DocExport.Request.Basic
import Mathlib.Tactic.SplitIfs

/-! Writing pairs in the form encoding, and reading them back. A byte that is written as itself, as a plus
sign or as a percent sequence is read back with any bytes behind it; no separator is written for any byte, so
pieces, names and values part where they were joined. -/
namespace DocExport.Text.FormEncoding
variable {b : UInt8} {rest : List UInt8} {c : Char}

/-- Characters that stand for themselves. -/
def isUnreserved (c : Char) : Bool := c.isAlphanum || c = '*' || c = '-' || c = '.' || c = '_'

/-- A hexadecimal digit as percent sequences use it. -/
def percentDigit (n : Nat) : Char := (Nat.digitChar n).toUpper

/-- One byte: as itself, a space as a plus sign, and all else as a percent sequence. -/
def encodeByte (b : UInt8) : List Char :=
  if b = 0x20 then ['+']
  else if isUnreserved (Char.ofNat b.toNat) then [Char.ofNat b.toNat]
  else ['%', percentDigit (b.toNat / 16), percentDigit (b.toNat % 16)]

/-- One name or value: the bytes of its UTF-8, one by one. -/
def encodePart (text : String) : List Char := (Utf8.encode text.toList).flatMap encodeByte

def encodePair (pair : String × String) : List Char := encodePart pair.1 ++ '=' :: encodePart pair.2

/-- The pairs with ampersands between them. -/
def encode (pairs : List (String × String)) : String := String.ofList (['&'].intercalate (pairs.map encodePair))

/-- The bytes that percent sequences are looked for in. -/
def received (chars : List Char) : List UInt8 := (Utf8.encode chars).map spaced

private theorem received_append (front back : List Char) : received (front ++ back) = received front ++ received back := by
  rw [received, Utf8.encode, List.flatMap_append, List.map_append]
  rfl

private theorem received_cons (h : c.toNat < 0x80) (chars : List Char) :
    received (c :: chars) = spaced (UInt8.ofNat c.toNat) :: received chars := by
  rw [received, Utf8.encode_cons_ascii h, List.map_cons]
  rfl

theorem unescape_cons (h : b ≠ 0x25) (rest : List UInt8) : unescape (b :: rest) = b :: unescape rest := by
  match rest with
  | [] => rfl
  | [_] => rfl
  | _ :: _ :: _ => simp only [unescape, sequence?, if_neg h]

private theorem unreserved_facts : ∀ n < 256, isUnreserved (Char.ofNat n) →
    (Char.ofNat n).toNat < 0x80 ∧ n ≠ 0x25 ∧ spaced (UInt8.ofNat (Char.ofNat n).toNat) = UInt8.ofNat n := by
  decide +kernel

private theorem percentDigit_facts : ∀ n < 16,
    (percentDigit n).toNat < 0x80 ∧ spaced (UInt8.ofNat (percentDigit n).toNat) = UInt8.ofNat (percentDigit n).toNat ∧
      hexValue? (Char.ofNat (UInt8.ofNat (percentDigit n).toNat).toNat) = some n := by decide

private theorem sequence?_percentDigits (b : UInt8) :
    sequence? 0x25 (UInt8.ofNat (percentDigit (b.toNat / 16)).toNat) (UInt8.ofNat (percentDigit (b.toNat % 16)).toNat) =
      some b := by
  have hb : b.toNat < 256 := b.toNat_lt
  obtain ⟨-, -, hhigh⟩ := percentDigit_facts (b.toNat / 16) (by omega)
  obtain ⟨-, -, hlow⟩ := percentDigit_facts (b.toNat % 16) (by omega)
  have hvalue : 16 * (16 * 0 + b.toNat / 16) + b.toNat % 16 = b.toNat := by omega
  rw [sequence?, if_pos rfl, hexNumber?]
  simp only [List.foldlM_cons, List.foldlM_nil, hhigh, hlow, Option.map_some, Option.bind_eq_bind, Option.bind_some,
    Option.pure_def, hvalue, UInt8.ofNat_toNat]

/-- A byte is read back from what is written for it, with any bytes behind. -/
theorem unescape_encodeByte (b : UInt8) (rest : List UInt8) :
    unescape (received (encodeByte b) ++ rest) = b :: unescape rest := by
  have hb : b.toNat < 256 := b.toNat_lt
  unfold encodeByte
  split_ifs with hspace hplain
  · rw [hspace]
    exact unescape_cons (by decide) rest
  · obtain ⟨hascii, hmark, hsame⟩ := unreserved_facts b.toNat hb hplain
    have hne : b ≠ 0x25 := fun h => hmark (h ▸ rfl)
    rw [received_cons hascii, hsame, UInt8.ofNat_toNat]
    exact unescape_cons hne rest
  · obtain ⟨hascii, hsame, -⟩ := percentDigit_facts (b.toNat / 16) (by omega)
    obtain ⟨hascii', hsame', -⟩ := percentDigit_facts (b.toNat % 16) (by omega)
    rw [received_cons (by decide), received_cons hascii, received_cons hascii', hsame, hsame']
    change unescape (0x25 :: _ :: _ :: rest) = _
    rw [unescape, sequence?_percentDigits]

theorem decodePart_encodePart (text : String) : decodePart (encodePart text) = text := by
  have hbytes (bytes : List UInt8) : unescape (received (bytes.flatMap encodeByte)) = bytes := by
    induction bytes with
    | nil => rfl
    | cons b bytes ih => rw [List.flatMap_cons, received_append, unescape_encodeByte, ih]
  rw [decodePart, ← received, encodePart, hbytes, Utf8.decode_encode, String.ofList_toList]

/-- The characters of which names and values are written. -/
def isWritten (c : Char) : Bool := isUnreserved c || c = '+' || c = '%'

private theorem isWritten_percentDigit : ∀ n < 16, isWritten (percentDigit n) := by decide

private theorem isWritten_of_mem_encodeByte (h : c ∈ encodeByte b) : isWritten c := by
  have hb : b.toNat < 256 := b.toNat_lt
  unfold encodeByte at h
  split_ifs at h with hspace hplain
  · rw [List.mem_singleton.mp h]
    rfl
  · rw [List.mem_singleton.mp h, isWritten, hplain, Bool.true_or, Bool.true_or]
  · simp only [List.mem_cons, List.not_mem_nil, or_false] at h
    rcases h with rfl | rfl | rfl
    · rfl
    · exact isWritten_percentDigit _ (by omega)
    · exact isWritten_percentDigit _ (by omega)

/-- No separator is written in a name or a value, and no question mark. -/
theorem not_mem_encodePart (hc : isWritten c = false) (text : String) : c ∉ encodePart text := by
  intro h
  obtain ⟨b, -, hmem⟩ := List.mem_flatMap.mp h
  rw [isWritten_of_mem_encodeByte hmem] at hc
  cases hc

theorem not_mem_encodePair (hc : isWritten c = false) (hne : c ≠ '=') (pair : String × String) : c ∉ encodePair pair := by
  rw [encodePair, List.mem_append, List.mem_cons]
  rintro (h | h | h)
  · exact not_mem_encodePart hc _ h
  · exact hne h
  · exact not_mem_encodePart hc _ h

theorem decodePair_encodePair (pair : String × String) : decodePair (encodePair pair) = pair := by
  have hname : ∀ c ∈ encodePart pair.1, (c != '=') = true := by
    intro c hc
    rw [bne_iff_ne]
    rintro rfl
    exact not_mem_encodePart (by decide) _ hc
  rw [decodePair, encodePair, List.takeWhile_append_of_pos hname, List.dropWhile_append_of_pos hname]
  simp [decodePart_encodePart]

/-- The pairs are read back, each with its name and its value, and no other pair is. -/
theorem decode_encode (pairs : List (String × String)) : decode (encode pairs) = pairs := by
  cases pairs with
  | nil => rfl
  | cons pair pairs =>
    have hpieces : (['&'].intercalate ((pair :: pairs).map encodePair)).splitOn '&' = (pair :: pairs).map encodePair := by
      apply List.splitOn_intercalate
      · rw [List.forall_mem_map]
        exact fun pair _ => not_mem_encodePair (by decide) (by decide) pair
      · exact List.cons_ne_nil _ _
    have hfilled : ∀ piece ∈ (pair :: pairs).map encodePair, (!piece.isEmpty) = true := by
      rw [List.forall_mem_map]
      intro pair _
      simp [encodePair]
    rw [decode, encode, String.toList_ofList, hpieces, List.filter_eq_self.mpr hfilled, List.map_map]
    exact (List.map_congr_left fun pair _ => decodePair_encodePair pair).trans (List.map_id _)

/-- Texts with an ampersand in between hold the pairs of both. No percent sequence goes on behind one. -/
theorem decode_append (front back : String) : decode (front ++ "&" ++ back) = decode front ++ decode back := by
  have hchars : (front ++ "&" ++ back).toList = front.toList ++ '&' :: back.toList := by simp
  rw [decode, hchars, List.splitOn_append_cons_self, List.filter_append, List.map_append]
  rfl

/-- A question mark in front of a query is none of its own. -/
theorem head?_encode_ne (pairs : List (String × String)) : (encode pairs).toList.head? ≠ some '?' := by
  rw [encode, String.toList_ofList]
  cases pairs with
  | nil => exact nofun
  | cons pair pairs =>
    have hfront : ∃ tail, ['&'].intercalate ((pair :: pairs).map encodePair) = encodePair pair ++ tail := by
      cases pairs with
      | nil => exact ⟨[], by rw [List.map_singleton, List.intercalate_singleton, List.append_nil]⟩
      | cons next pairs =>
        rw [List.map_cons, List.map_cons, List.intercalate_cons_cons, List.append_assoc]
        exact ⟨_, rfl⟩
    obtain ⟨tail, htail⟩ := hfront
    obtain ⟨first, rest, hpair⟩ := List.exists_cons_of_ne_nil (l := encodePair pair) (by simp [encodePair])
    rw [htail, hpair, List.cons_append, List.head?_cons]
    intro h
    have hmem : '?' ∈ encodePair pair := by rw [hpair, Option.some.inj h]; exact List.mem_cons_self
    exact not_mem_encodePair (by decide) (by decide) pair hmem

end DocExport.Text.FormEncoding

namespace DocExport.Request
open Text

theorem ofQuery_of_head?_ne {query : String} (h : query.toList.head? ≠ some '?') :
    ofQuery query = ofPairs (FormEncoding.decode query) := by
  unfold ofQuery
  split
  · rename_i heq
    rw [heq] at h
    exact absurd rfl h
  · rfl

theorem ofQuery_question (query : String) : ofQuery ("?" ++ query) = ofPairs (FormEncoding.decode query) := by
  have hchars : ("?" ++ query).toList = '?' :: query.toList := by simp
  rw [ofQuery, hchars]
  simp only [String.ofList_toList]

/-- What is written behind a query and an ampersand adds its pairs behind those of the query. -/
theorem exists_pairs_of_query (query : String) :
    ∃ pairs, ofQuery query = ofPairs pairs ∧
      ∀ back, ofQuery (query ++ "&" ++ back) = ofPairs (pairs ++ FormEncoding.decode back) := by
  by_cases h : query.toList.head? = some '?'
  · obtain ⟨rest, hrest⟩ : ∃ rest, query.toList = '?' :: rest := by
      cases hchars : query.toList with
      | nil => simp [hchars] at h
      | cons c rest => exact ⟨rest, by simpa [hchars] using h⟩
    have hquery : query = "?" ++ String.ofList rest := String.toList_inj.mp (by simp [hrest])
    refine ⟨FormEncoding.decode (String.ofList rest), by rw [hquery, ofQuery_question], fun back => ?_⟩
    rw [hquery, String.append_assoc, String.append_assoc, ofQuery_question, ← String.append_assoc,
      FormEncoding.decode_append]
  · refine ⟨FormEncoding.decode query, ofQuery_of_head?_ne h, fun back => ?_⟩
    have hlonger : (query ++ "&" ++ back).toList.head? ≠ some '?' := by
      cases hchars : query.toList with
      | nil => simp [hchars]
      | cons c rest => simpa [hchars] using h
    rw [ofQuery_of_head?_ne hlonger, FormEncoding.decode_append]

/-- The request of a query is that of the pairs which the query is the form encoding of, whatever characters are
in their names and values, and with or without a question mark in front. -/
theorem ofQuery_encode (pairs : List (String × String)) :
    ofQuery (FormEncoding.encode pairs) = ofPairs pairs ∧ ofQuery ("?" ++ FormEncoding.encode pairs) = ofPairs pairs := by
  rw [ofQuery_of_head?_ne (FormEncoding.head?_encode_ne pairs), ofQuery_question, FormEncoding.decode_encode]
  exact ⟨rfl, rfl⟩

example : FormEncoding.encode [("k", "a b"), ("", "é&=?")] = "k=a+b&=%C3%A9%26%3D%3F" := by decide

end DocExport.Request
