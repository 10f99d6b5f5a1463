import DocExport.Yaml.Tag

/-! Directives: lines in front of a document that say how to read it. -/
namespace DocExport.Yaml

inductive Directive where
  | version
  | tagHandle (handle : String)
  deriving DecidableEq, Repr

namespace Cursor

/-- A part of a version number without its leading zeros. -/
def versionPart? (c : Cursor) : Option (List Char × Cursor) :=
  let digits := c.rest.takeWhile Char.isDigit
  if digits.isEmpty || 9 < digits.length then none
  else some (digits.dropWhile (· = '0'), c.skip digits.length)

/-- Past a version number, which has to be 1.1 or 1.2. -/
def skipVersion? (c : Cursor) : Option Cursor := do
  let (major, after) ← c.versionPart?
  if after.head? ≠ some '.' then none
  let (minor, after) ← (after.skip 1).versionPart?
  if major = ['1'] ∧ (minor = ['1'] ∨ minor = ['2']) then return after
  none

/-- A directive from its percent sign, and the cursor on the next line. -/
def directive? (c : Cursor) : Option (Directive × Cursor) := do
  let named := (c.skip 1).skipWhile isNameChar
  if !atBlank named.rest then none
  let start := named.skipWhile isGap
  match (c.skip 1).textTo named with
  | "YAML" => return (.version, ← (← start.skipVersion?).endLine?)
  | "TAG" =>
    if start.head? ≠ some '!' then none
    let handle := start.skipNamedHandle?.getD (start.skip 1)
    if !handle.head?.any isGap then none
    let after ← (handle.skipWhile isGap).skipUri? true
    if !atBlank after.rest then none
    return (.tagHandle (start.textTo handle), ← after.endLine?)
  | _ => none

end Cursor

end DocExport.Yaml
