import DocExport.Json.Token
import DocExport.Number.Numeral
import DocExport.Text.Hexadecimal

/-! Reading the tokens of a JSON text. A string ends at its first unescaped quote; any other word
is a maximal run of letters, digits, signs and points. -/
namespace DocExport.Json

def isSpace (c : Char) : Bool :=
  c = ' ' || c = '\t' || c = '\n' || c = '\r'

/-- What precedes the first unescaped quote, and what follows it. -/
def stringExtent? : List Char → Option (List Char × List Char)
  | [] => none
  | '"' :: rest => some ([], rest)
  | '\\' :: c :: rest => (stringExtent? rest).map fun (body, after) => ('\\' :: c :: body, after)
  | c :: rest => (stringExtent? rest).map fun (body, after) => (c :: body, after)

/-- The character that a one-letter escape stands for. -/
def unescapeChar? : Char → Option Char
  | '"' => some '"'
  | '\\' => some '\\'
  | '/' => some '/'
  | 'b' => some '\x08'
  | 'f' => some '\x0c'
  | 'n' => some '\n'
  | 'r' => some '\r'
  | 't' => some '\t'
  | _ => none

/-- The code units of a string's content. Only escapes can make surrogates; control characters
must be escaped. -/
def codeUnits? : List Char → Option (List Nat)
  | [] => some []
  | '\\' :: 'u' :: a :: b :: c :: d :: rest => do
    return (← Text.hexNumber? [a, b, c, d]) :: (← codeUnits? rest)
  | '\\' :: c :: rest => do return (← unescapeChar? c).toNat :: (← codeUnits? rest)
  | c :: rest => if c = '\\' ∨ c.toNat < 0x20 then none else (codeUnits? rest).map (c.toNat :: ·)

/-- The characters of code units, a leading and a trailing surrogate making one. A surrogate that
stands alone makes none. -/
def joinUnits? : List Nat → Option (List Char)
  | [] => some []
  | [unit] => if 0xD800 ≤ unit ∧ unit < 0xE000 then none else some [Char.ofNat unit]
  | unit :: next :: rest =>
    if 0xD800 ≤ unit ∧ unit < 0xDC00 ∧ 0xDC00 ≤ next ∧ next < 0xE000 then
      (joinUnits? rest).map
        (Char.ofNat (0x10000 + (unit - 0xD800) * 0x400 + (next - 0xDC00)) :: ·)
    else if 0xD800 ≤ unit ∧ unit < 0xE000 then none
    else (joinUnits? (next :: rest)).map (Char.ofNat unit :: ·)

def isWordChar (c : Char) : Bool :=
  c.isAlphanum || c = '+' || c = '-' || c = '.'

/-- A word that is a value by itself. -/
def literal? (word : List Char) : Option Scalar :=
  if word = ['n', 'u', 'l', 'l'] then some .null
  else if word = ['t', 'r', 'u', 'e'] then some (.bool true)
  else if word = ['f', 'a', 'l', 's', 'e'] then some (.bool false)
  else (Numeral.ofChars? word).bind fun n => n.number?.map .number

def punctuation? : Char → Option Token
  | '[' => some .arrayOpen
  | ']' => some .arrayClose
  | '\x7b' => some .objectOpen
  | '\x7d' => some .objectClose
  | ',' => some .comma
  | ':' => some .colon
  | _ => none

/-- The text of a string's content. -/
def stringText? (body : List Char) : Option String :=
  ((codeUnits? body).bind joinUnits?).map String.ofList

/-- The token that starts with the character `c`, which is no space, and what follows it. -/
def token? (c : Char) (rest : List Char) : Option (Token × List Char) :=
  match punctuation? c with
  | some token => some (token, rest)
  | none =>
    if c = '"' then
      (stringExtent? rest).bind fun (body, after) =>
        (stringText? body).map fun text => (.scalar (.string text), after)
    else
      (literal? (c :: rest.takeWhile isWordChar)).map fun value =>
        (.scalar value, rest.dropWhile isWordChar)

theorem stringExtent?_length {text body after : List Char}
    (h : stringExtent? text = some (body, after)) : after.length ≤ text.length := by
  fun_induction stringExtent? text generalizing body with
  | case1 => simp at h
  | case2 rest => simp only [Option.some.injEq, Prod.mk.injEq] at h; simp [h.2]
  | case3 c rest ih | case4 c rest _ _ ih =>
    obtain ⟨⟨_, _⟩, hr, he⟩ := Option.map_eq_some_iff.1 h
    simp only [Prod.mk.injEq] at he
    have := ih (he.2 ▸ hr)
    simp only [List.length_cons]
    omega

theorem token?_length {c : Char} {rest after : List Char} {token : Token}
    (h : token? c rest = some (token, after)) : after.length ≤ rest.length := by
  unfold token? at h
  split at h
  · simp only [Option.some.injEq, Prod.mk.injEq] at h
    simp [h.2]
  · split at h
    · obtain ⟨⟨_, _⟩, hr, he⟩ := Option.bind_eq_some_iff.1 h
      obtain ⟨_, _, he⟩ := Option.map_eq_some_iff.1 he
      simp only [Prod.mk.injEq] at he
      exact he.2 ▸ stringExtent?_length hr
    · obtain ⟨_, _, he⟩ := Option.map_eq_some_iff.1 h
      simp only [Prod.mk.injEq] at he
      exact he.2 ▸ (List.dropWhile_suffix isWordChar).length_le

/-- All tokens of a text, none if some part of it is no token. -/
def scan (text : List Char) : Option (List Token) :=
  match text with
  | [] => some []
  | c :: rest =>
    if isSpace c then scan rest
    else match _h : token? c rest with
      | some (token, after) => (scan after).map (token :: ·)
      | none => none
termination_by text.length
decreasing_by
  · simp
  · exact Nat.lt_succ_of_le (token?_length _h)

end DocExport.Json
