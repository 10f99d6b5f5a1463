/-! UTF-8 as lists of bytes. Every text has one encoding; decoding never fails, because each
maximal run of bytes that starts a character but does not finish one, and each byte that starts
none, stands for the replacement character U+FFFD. -/
namespace DocExport.Text.Utf8

def replacement : Char := '\uFFFD'

def encode (text : List Char) : List UInt8 :=
  text.flatMap String.utf8EncodeChar

/-- What a lead byte announces: how many bytes follow it and where the first of them must lie. -/
structure Lead where
  bits : Nat
  following : Nat
  low : Nat
  high : Nat

def Lead.ofByte? (b : Nat) : Option Lead :=
  if 0xC2 ≤ b ∧ b ≤ 0xDF then some ⟨b - 0xC0, 1, 0x80, 0xBF⟩
  else if b = 0xE0 then some ⟨0, 2, 0xA0, 0xBF⟩
  else if b = 0xED then some ⟨0xD, 2, 0x80, 0x9F⟩
  else if 0xE1 ≤ b ∧ b ≤ 0xEF then some ⟨b - 0xE0, 2, 0x80, 0xBF⟩
  else if b = 0xF0 then some ⟨0, 3, 0x90, 0xBF⟩
  else if 0xF1 ≤ b ∧ b ≤ 0xF3 then some ⟨b - 0xF0, 3, 0x80, 0xBF⟩
  else if b = 0xF4 then some ⟨4, 3, 0x80, 0x8F⟩
  else none

/-- The longest start of `bytes` that continues a character, `count` bytes at most. -/
def continuation : (count low high : Nat) → (bytes : List UInt8) → List UInt8
  | 0, _, _, _ => []
  | _ + 1, _, _, [] => []
  | count + 1, low, high, b :: bytes =>
    if low ≤ b.toNat ∧ b.toNat ≤ high then b :: continuation count 0x80 0xBF bytes else []

/-- The code point whose leading bits are `bits`, six more coming from each following byte. -/
def assemble (bits : Nat) (bytes : List UInt8) : Nat :=
  bytes.foldl (fun value b => 64 * value + (b.toNat - 0x80)) bits

def decode : List UInt8 → List Char
  | [] => []
  | b :: bytes =>
    if b.toNat < 0x80 then Char.ofNat b.toNat :: decode bytes
    else match Lead.ofByte? b.toNat with
      | none => replacement :: decode bytes
      | some lead =>
        let more := continuation lead.following lead.low lead.high bytes
        let c := if more.length = lead.following then Char.ofNat (assemble lead.bits more)
          else replacement
        c :: decode (bytes.drop more.length)
termination_by bytes => bytes.length
decreasing_by all_goals simp only [List.length_cons, List.length_drop]; omega

end DocExport.Text.Utf8
