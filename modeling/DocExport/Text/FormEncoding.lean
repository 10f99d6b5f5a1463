import DocExport.Text.Hexadecimal
import DocExport.Text.Utf8

/-! Name and value pairs written in a URL query, the form encoding of web forms. Decoding accepts
every text: a percent sign without two hexadecimal digits after it stands for itself. -/
namespace DocExport.Text.FormEncoding

/-- The byte of a percent sequence. -/
def sequence? (mark high low : UInt8) : Option UInt8 :=
  if mark = 0x25 then
    (hexNumber? [Char.ofNat high.toNat, Char.ofNat low.toNat]).map UInt8.ofNat
  else none

/-- Percent sequences replaced by their bytes, read from the left. -/
def unescape : List UInt8 → List UInt8
  | b :: high :: low :: rest =>
    match sequence? b high low with
    | some value => value :: unescape rest
    | none => b :: unescape (high :: low :: rest)
  | bytes => bytes

def spaced (b : UInt8) : UInt8 := if b = 0x2B then 0x20 else b

/-- One name or value: a plus sign is a space, then percent sequences are bytes of UTF-8. -/
def decodePart (part : List Char) : String :=
  String.ofList (Utf8.decode (unescape ((Utf8.encode part).map spaced)))

/-- One pair; without an equals sign the whole piece is the name. -/
def decodePair (piece : List Char) : String × String :=
  (decodePart (piece.takeWhile (· != '=')), decodePart ((piece.dropWhile (· != '=')).drop 1))

/-- The pairs of a query in order. Empty pieces between ampersands hold no pair. -/
def decode (query : String) : List (String × String) :=
  ((query.toList.splitOn '&').filter (!·.isEmpty)).map decodePair

end DocExport.Text.FormEncoding
