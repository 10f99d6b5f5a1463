import DocExport.Proofs.Lasting
import DocExport.Proofs.Runs

/-! Output of one document a line. A text on one line has no control characters, since strings have theirs
escaped, so the only line breaks of an output are those between its lines. What a line is of was read from
the input or made of its parts, so the line is read back as it was. -/
namespace DocExport

namespace Json

theorem code_digitChar : ∀ n < 16, 0x20 ≤ (Nat.digitChar n).toNat := by decide

/-- Control characters are spelled with others. -/
theorem code_of_mem_escapeChar (c : Char) : ∀ x ∈ escapeChar c, 0x20 ≤ x.toNat := by
  unfold escapeChar
  split_ifs with _ _ _ _ _ _ _ hcontrol
  iterate 7 · simp
  · have hhigh := code_digitChar (c.toNat / 16) (by omega)
    have hlow := code_digitChar (c.toNat % 16) (Nat.mod_lt _ (by decide))
    have hfront : ∀ x ∈ ['\\', 'u', '0', '0'], 0x20 ≤ x.toNat := by simp
    exact List.forall_mem_append.mpr ⟨hfront, List.forall_mem_cons.mpr ⟨hhigh, List.forall_mem_singleton.mpr hlow⟩⟩
  · exact List.forall_mem_singleton.mpr (Nat.not_lt.mp hcontrol)

theorem code_of_isNumberChar {c : Char} (h : Number.isNumberChar c) : 0x20 ≤ c.toNat := by
  rw [Number.isNumberChar, Bool.or_eq_true, List.contains_iff_mem] at h
  rcases h with hdigit | hmark
  · exact Nat.le_trans (by decide) (Char.isDigit_iff_toNat.mp hdigit).1
  · have hmarks : ∀ c ∈ ['-', '+', '.', 'e'], 0x20 ≤ c.toNat := by simp
    exact hmarks c hmark

theorem code_of_mem_chars (token : Token) : ∀ c ∈ token.chars, 0x20 ≤ c.toNat := by
  cases token with
  | arrayOpen | arrayClose | objectOpen | objectClose | comma | colon => simp [Token.chars]
  | scalar value =>
    cases value with
    | null => simp [Token.chars, scalarChars]
    | bool b => cases b <;> simp [Token.chars, scalarChars]
    | number value => exact fun c h => code_of_isNumberChar (Number.isNumberChar_of_mem_chars h)
    | string text =>
      have hbody : ∀ c ∈ text.toList.flatMap escapeChar, 0x20 ≤ c.toNat :=
        List.forall_mem_flatMap.mpr fun c _ => code_of_mem_escapeChar c
      exact List.forall_mem_append.mpr ⟨List.forall_mem_cons.mpr ⟨by decide, hbody⟩, by simp⟩

end Json

namespace Document
variable {d result : Document} {slot : Slot} {segment : String} {row : Row} {allowed : List String}

/-- A text on one line has no control characters. -/
theorem code_of_mem_compact (d : Document) : ∀ c ∈ d.compact.toList, 0x20 ≤ c.toNat := by
  rw [compact, String.toList_ofList]
  exact List.forall_mem_flatMap.mpr fun token _ => Json.code_of_mem_chars token

theorem newline_not_mem_compact (d : Document) : '\n' ∉ d.compact.toList :=
  fun h => absurd (d.code_of_mem_compact _ h) (by decide)

theorem tokens_ne_nil (d : Document) : d.tokens ≠ [] := by
  cases d with
  | scalar value => exact List.cons_ne_nil _ _
  | array items => cases items <;> exact List.cons_ne_nil _ _
  | object members => cases members <;> exact List.cons_ne_nil _ _

theorem compact_ne_empty (h : d.IsExact) : d.compact ≠ "" := by
  intro hempty
  have hscan := Json.scan_compact (legible_tokens h)
  rw [String.ofList_eq_empty_iff.mp hempty, Json.scan, Option.some.injEq] at hscan
  exact d.tokens_ne_nil hscan.symm

/-- As far as this node goes, the text of a document denotes the document. -/
def IsFaithful (node : Document) : Prop := node.keys.Nodup ∧ ∀ value, node = .scalar value → value.IsExact

theorem isExact_iff_everywhere : d.IsExact ↔ d.Everywhere fun node => ∀ value, node = .scalar value → value.IsExact := by
  induction d using induction_children with
  | node d ih =>
    rw [everywhere_iff]
    constructor
    · intro h
      refine ⟨fun value hd => h ([], value) (nil_mem_leaves_iff.mpr hd), fun child hmem => ?_⟩
      refine (ih child hmem).mp fun leaf hleaf => ?_
      exact h (child.1 :: leaf.1, leaf.2) (cons_mem_leaves_iff.mpr ⟨child.2, hmem, hleaf⟩)
    · rintro ⟨hroot, hbelow⟩ ⟨trail, value⟩ hleaf
      cases trail with
      | nil => exact hroot value (nil_mem_leaves_iff.mp hleaf)
      | cons segment rest =>
        obtain ⟨child, hmem, hrest⟩ := cons_mem_leaves_iff.mp hleaf
        exact (ih _ hmem).mpr (hbelow _ hmem) (rest, value) hrest

theorem everywhere_isFaithful_iff : d.Everywhere IsFaithful ↔ d.Distinct ∧ d.IsExact := by
  rw [isExact_iff_everywhere]
  exact ⟨fun h => ⟨fun node hmem => (h node hmem).1, fun node hmem => (h node hmem).2⟩,
    fun h node hmem => ⟨h.1 node hmem, h.2 node hmem⟩⟩

theorem lasting_isFaithful : Lasting IsFaithful where
  null := ⟨List.nodup_nil, fun _ h => by cases h; trivial⟩
  array := ⟨List.nodup_nil, nofun⟩
  object := ⟨List.nodup_nil, nofun⟩
  put {d segment slot} child hslot h := by
    cases d with
    | scalar s => cases s <;> cases hslot
    | array items =>
      obtain ⟨-, hitem⟩ := Option.ite_none_right_eq_some.mp hslot
      cases hitem
      exact ⟨List.nodup_nil, nofun⟩
    | object members =>
      cases hslot
      exact ⟨nodup_setMember h.1, nofun⟩

/-- A row has each path once, and its values are among the leaves of the document. -/
theorem everywhere_isFaithful_ofRow (hd : d.IsExact) (h : d.toRow allowed = .ok row) :
    (ofRow row).Everywhere IsFaithful := by
  obtain ⟨rfl, hnodup⟩ := toRow_eq_ok h
  rw [everywhere_isFaithful_iff, ofRow, distinct_object_iff, isExact_object_iff, List.map_map, List.forall_mem_map,
    List.forall_mem_map]
  refine ⟨⟨hnodup, fun leaf _ => distinct_scalar leaf.2⟩, fun leaf hleaf => ?_⟩
  obtain ⟨⟨trail, value⟩, hmem, rfl⟩ := List.mem_map.mp (List.mem_of_mem_filter hleaf)
  exact List.forall_mem_singleton.mpr (hd (trail, value) hmem)

end Document

namespace CommandLine
open Document
variable {s : Surroundings} {invocation : Invocation} {command : Command} {printed : Printed} {docs : List Document}
  {d result : Document} {position : Nat} {text : String} {line : Document × Nat → Except Failure String}

/-- Commands that print one document a line. -/
def Command.IsPlain : Command → Prop
  | .render .. => False
  | .flatten _ _ pretty | .project _ _ pretty => pretty = false
  | .get .. => True

/-- What a command has to show of a document. -/
inductive Command.Shows : Command → Document → Document → Prop where
  | found {path input : String} {d found : Document} :
    d.get (.ofText path) = .ok (some found) → Shows (.get path input) d found
  | absent {path input : String} {d : Document} : d.get (.ofText path) = .ok none → Shows (.get path input) d .null
  | part {keys input : String} {pretty : Bool} {d part : Document} :
    d.restrict (Text.items keys) = .ok part → Shows (.project input keys pretty) d part
  | row {keys : Option String} {input : String} {pretty : Bool} {d : Document} {row : Row} :
    d.toRow ((keys.map Text.items).getD []) = .ok row → Shows (.flatten input keys pretty) d (.ofRow row)

/-- The line tells what the command shows of the document: it is read back as that. -/
def Command.Tells (command : Command) (d : Document) (line : String) : Prop :=
  ∃ result, command.Shows d result ∧ line ≠ "" ∧ (result.depth ≤ 127 → ofJson? line = some result)

theorem exists_shows_of_line? (hplain : command.IsPlain) (hline : command.line? = some line)
    (h : line (d, position) = .ok text) : ∃ result, command.Shows d result ∧ text = lineText false result := by
  cases command with
  | render input o => cases hline
  | flatten input keys pretty =>
    cases hline
    cases hplain
    obtain ⟨row, hrow, rfl⟩ := map_eq_ok_iff.mp h
    exact ⟨_, .row (toRow_eq_ok_of_toRowAt (mapError_eq_ok_iff.mp hrow)), rfl⟩
  | project input keys pretty =>
    cases hline
    cases hplain
    obtain ⟨part, hpart, rfl⟩ := map_eq_ok_iff.mp h
    exact ⟨part, .part (mapError_eq_ok_iff.mp hpart), rfl⟩
  | get path input =>
    cases hline
    obtain ⟨found, hfound, rfl⟩ := map_eq_ok_iff.mp h
    cases found with
    | none => exact ⟨_, .absent (mapError_eq_ok_iff.mp hfound), rfl⟩
    | some node => exact ⟨_, .found (mapError_eq_ok_iff.mp hfound), rfl⟩

theorem exists_shows_of_forall₂ (hplain : command.IsPlain) (hline : command.line? = some line) {lines : List String}
    (h : List.Forall₂ (fun x text => line x = .ok text) (docs.zipIdx position) lines) :
    ∃ results, List.Forall₂ command.Shows docs results ∧ lines = results.map (lineText false) := by
  induction docs generalizing position lines with
  | nil =>
    cases h
    exact ⟨[], .nil, rfl⟩
  | cons d docs ih =>
    rw [List.zipIdx_cons] at h
    obtain ⟨text, texts, hfirst, hrest, rfl⟩ := List.forall₂_cons_left_iff.mp h
    obtain ⟨result, hshows, rfl⟩ := exists_shows_of_line? hplain hline hfirst
    obtain ⟨results, hall, rfl⟩ := ih hrest
    exact ⟨result :: results, .cons hshows hall, rfl⟩

theorem Command.Shows.everywhere_isFaithful (h : command.Shows d result) (hdistinct : d.Distinct) (hexact : d.IsExact) :
    result.Everywhere IsFaithful := by
  have hd : d.Everywhere IsFaithful := everywhere_isFaithful_iff.mpr ⟨hdistinct, hexact⟩
  cases h with
  | found hfound => exact hd.of_follow hfound
  | absent => exact lasting_isFaithful.everywhere_null
  | part hpart => exact lasting_isFaithful.everywhere_restrict hd hpart
  | row hrow => exact everywhere_isFaithful_ofRow hexact hrow

theorem Command.Shows.tells (h : command.Shows d result) (hdistinct : d.Distinct) (hexact : d.IsExact) :
    command.Tells d result.compact := by
  obtain ⟨hdistinct, hexact⟩ := everywhere_isFaithful_iff.mp (h.everywhere_isFaithful hdistinct hexact)
  exact ⟨result, h, compact_ne_empty hexact, fun hdepth => (ofJson?_text hexact hdistinct hdepth).1⟩

theorem exists_ofJson?_of_readDocuments {input : String} (h : readDocuments s input = .ok docs) :
    ∃ text d, ofJson? text = some d ∧ documentsOf d = docs := by
  unfold readDocuments at h
  split at h
  -- from standard input and from a file alike
  all_goals
    obtain ⟨text, -, h⟩ := bind_eq_ok_iff.mp h
    dsimp only at h
    split at h
    · rename_i d hd
      exact ⟨text, d, hd, Except.ok.inj h⟩
    · cases h

/-- An object in the input may repeat a key, the document that is read does not. -/
theorem distinct_of_readDocuments {input : String} (h : readDocuments s input = .ok docs) :
    ∀ d ∈ docs, d.Distinct := by
  obtain ⟨text, d, hd, rfl⟩ := exists_ofJson?_of_readDocuments h
  have hdistinct : d.Distinct := distinct_of_ofJson? hd
  cases d with
  | array items => exact distinct_array_iff.mp hdistinct
  | scalar | object => exact List.forall_mem_singleton.mpr hdistinct

/-- Behind the last line is an end of a line and nothing more. -/
theorem splitOn_join_lineText (results : List Document) :
    (String.join (results.map (lineText false))).toList.splitOn '\n' = results.map (·.compact.toList) ++ [[]] := by
  rw [String.toList_join, List.flatMap_map]
  induction results with
  | nil => rfl
  | cons result results ih =>
    have hline : (lineText false result).toList = result.compact.toList ++ ['\n'] := String.toList_append
    rw [List.flatMap_cons, hline, List.append_assoc, List.singleton_append,
      List.splitOn_append_cons_self_of_not_mem result.newline_not_mem_compact, ih]
    rfl

/-- If all numbers of the input are integers of a word, an output of one document a line is as many lines as
there are documents and nothing behind them. None is empty, and each is read back as what the command shows of
its document, if that is not too deep for a reader, whatever is in the keys and strings. -/
theorem run_lines {texts : List String} (hinvocation : Invocation.ofArguments s.configVariable texts = .ok invocation)
    (hplain : invocation.command.IsPlain) (hread : readDocuments s invocation.command.input = .ok docs)
    (hexact : ∀ d ∈ docs, d.IsExact) (hrun : run s texts = .printed printed) :
    ∃ lines : List String, printed.output.toList.splitOn '\n' = lines.map String.toList ++ [[]] ∧
      List.Forall₂ invocation.command.Tells docs lines := by
  rw [run_of_ofArguments hinvocation] at hrun
  have hcommand : runCommand s invocation = .ok printed := by
    cases h : runCommand s invocation with
    | ok own =>
      rw [h] at hrun
      cases hrun
      rfl
    | error fault =>
      rw [h] at hrun
      cases hrun
  cases runCommand_eq_ok_iff.mp hcommand with
  | rendering => exact hplain.elim
  | lines hline hown hlines =>
    cases hread.symm.trans hown
    obtain ⟨results, hshows, rfl⟩ := exists_shows_of_forall₂ hplain hline hlines
    refine ⟨results.map compact, ?_, List.forall₂_map_right_iff.mpr ?_⟩
    · rw [splitOn_join_lineText, List.map_map]
      rfl
    · have hdistinct := distinct_of_readDocuments hread
      have hall : ∀ d ∈ docs, d.Distinct ∧ d.IsExact := fun d hmem => ⟨hdistinct d hmem, hexact d hmem⟩
      refine ((List.forall₂_and_left docs results).mpr ⟨hall, hshows⟩).imp fun d result h => ?_
      exact h.2.tells h.1.1 h.1.2

/-- Line breaks and a control character in keys and in a text, the greatest integer, and a document of which nothing
is shown. -/
theorem run_lines_breaks :
    let docs : List Document :=
      [.object [("a\nb", .object [("\x0b", .scalar (.number (.integer 18446744073709551615)))]),
          ("c", .array [.scalar (.string "\r\n")])],
        .object []]
    let s : Surroundings :=
      { file? := fun _ => none
        input? := some
          "[\x7b\"a\\nb\":\x7b\"\\u000b\":18446744073709551615\x7d,\"c\":[\"\\r\\n\"]\x7d,\x7b\x7d]"
        defaultConfig := "docs.yaml", configVariable := none, transformVariable := none }
    let command : Command := .flatten standardInput none false
    let output := String.join
      ["\x7b\"a\\nb.\\u000b\":18446744073709551615,\"c.0\":\"\\r\\n\"\x7d\n", "\x7b\x7d\n"]
    (Invocation.ofArguments s.configVariable ["flatten"] = .ok ⟨command, none⟩ ∧ command.IsPlain ∧
        readDocuments s standardInput = .ok docs ∧ (∀ d ∈ docs, d.IsExact) ∧
        run s ["flatten"] = .printed ⟨output, ""⟩) ∧
      ∃ lines : List String, output.toList.splitOn '\n' = lines.map String.toList ++ [[]] ∧
        List.Forall₂ command.Tells docs lines := by
  intro docs s command output
  have hinvocation : Invocation.ofArguments s.configVariable ["flatten"] = .ok ⟨command, none⟩ := by rfl
  have hexact : ∀ d ∈ docs, d.IsExact := by decide
  have htext : s.input? = some (Document.array docs).compact := by decide
  have hread : readDocuments s standardInput = .ok docs := by
    have hdistinct : (Document.array docs).Everywhere fun node => node.keys.Nodup := by decide
    exact readDocuments_eq_ok ((if_pos rfl).trans htext)
      (ofJson?_text (isExact_array_iff.mpr hexact) hdistinct (by decide)).1
  have hcompletes : Completes s ⟨command, none⟩ ⟨output, ""⟩ := .lines rfl hread (.cons rfl (.cons rfl .nil))
  have hrun : run s ["flatten"] = .printed ⟨output, ""⟩ := by
    rw [run_of_ofArguments hinvocation, runCommand_eq_ok_iff.mpr hcompletes]
  exact ⟨⟨hinvocation, rfl, hread, hexact, hrun⟩, run_lines hinvocation rfl hread hexact hrun⟩

end CommandLine
end DocExport
