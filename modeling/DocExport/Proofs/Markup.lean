import DocExport.Output.Element
import Mathlib.Tactic.SplitIfs

/-! Reading elements back from their characters. The reader knows tags by their brackets, matches
start and end tags by name and undoes the five entities, and nothing else. What was written as an
element is read as that element, whatever its texts are. -/
namespace DocExport

namespace Markup

/-- What a reader finds in an element: text, elements that close themselves, and elements with
content. -/
inductive Node where
  | text (content : String)
  | empty (name : String)
  | element (name : String) (content : List Node)
  deriving Repr

/-- Text with its entities undone, none if an ampersand starts no entity. -/
def unescape : List Char → Option (List Char)
  | [] => some []
  | '&' :: 'a' :: 'm' :: 'p' :: ';' :: rest => (unescape rest).map ('&' :: ·)
  | '&' :: 'l' :: 't' :: ';' :: rest => (unescape rest).map ('<' :: ·)
  | '&' :: 'g' :: 't' :: ';' :: rest => (unescape rest).map ('>' :: ·)
  | '&' :: 'q' :: 'u' :: 'o' :: 't' :: ';' :: rest => (unescape rest).map ('"' :: ·)
  | '&' :: 'a' :: 'p' :: 'o' :: 's' :: ';' :: rest => (unescape rest).map ('\x27' :: ·)
  | c :: rest => if c = '&' then none else (unescape rest).map (c :: ·)

/-- Text as content. No text is no content. -/
def textNodes (content : List Char) : List Node :=
  if content.isEmpty then [] else [.text (String.ofList content)]

/-- Characters that no name in a tag has: with them a tag could be something else than an element's,
or have attributes. -/
def reserved : List Char := ['<', '>', '/', '&', '!', '?', '=', '"', '\x27', ' ', '\t', '\n', '\r']

def isTagName (name : List Char) : Bool := !name.isEmpty && name.all fun c => !reserved.contains c

/-- An element that is still open, and what stands before it in the element around it. -/
structure Frame where
  name : String
  before : List Node

/-- What the reader is inside of: text since the last tag, or a tag that has begun. -/
inductive Focus where
  | text (raw : List Char)
  | tag (inside : List Char)

/-- The reader between two characters, with the content so far of the innermost open element. -/
structure State where
  stack : List Frame
  content : List Node
  focus : Focus

def State.start : State := ⟨[], [], .text []⟩

def closeElement (content : List Node) (name : String) : List Frame → Option (List Frame × List Node)
  | [] => none
  | frame :: stack =>
    if frame.name = name then some (stack, frame.before ++ [.element name content]) else none

/-- What the characters between the brackets of a tag do. -/
def readTag (stack : List Frame) (content : List Node) (inside : List Char) : Option (List Frame × List Node) :=
  match inside with
  | '/' :: name => if isTagName name then closeElement content (String.ofList name) stack else none
  | _ =>
    if isTagName inside then some (⟨String.ofList inside, content⟩ :: stack, [])
    else if inside.getLast? = some '/' ∧ isTagName inside.dropLast then
      some (stack, content ++ [.empty (String.ofList inside.dropLast)])
    else none

/-- One character. -/
def step : State → Char → Option State
  | ⟨stack, content, .text raw⟩, c =>
    if c = '<' then (unescape raw).map fun text => ⟨stack, content ++ textNodes text, .tag []⟩
    else some ⟨stack, content, .text (raw ++ [c])⟩
  | ⟨stack, content, .tag inside⟩, c =>
    if c = '>' then (readTag stack content inside).map fun (stack, content) => ⟨stack, content, .text []⟩
    else some ⟨stack, content, .tag (inside ++ [c])⟩

def run (state : State) (text : List Char) : Option State := text.foldlM step state

/-- The one element that is the whole text. -/
def read (text : List Char) : Option Node :=
  match run .start text with
  | some ⟨[], [root], .text []⟩ => some root
  | _ => none

example : read "<a>x&lt;<b/></a>".toList = some (.element "a" [.text "x<", .empty "b"]) := by rfl

mutual

/-- The names of all elements, each as often as it is one. -/
def Node.names : Node → List String
  | .text _ => []
  | .empty name => [name]
  | .element name content => name :: forestNames content

def forestNames : List Node → List String
  | [] => []
  | node :: rest => node.names ++ forestNames rest

end

theorem forestNames_append (front back : List Node) :
    forestNames (front ++ back) = forestNames front ++ forestNames back := by
  induction front with
  | nil => rw [List.nil_append, forestNames, List.nil_append]
  | cons node front ih => rw [List.cons_append, forestNames, forestNames, ih, List.append_assoc]

theorem textNodes_nil : textNodes [] = [] := rfl

theorem forestNames_textNodes (content : List Char) : forestNames (textNodes content) = [] := by
  rw [textNodes]
  split
  · rw [forestNames]
  · rw [forestNames, forestNames, Node.names, List.append_nil]

variable {stack : List Frame} {content before : List Node} {text raw inside : List Char} {name : String}
  {c : Char}

theorem run_cons (state : State) (c : Char) (text : List Char) :
    run state (c :: text) = (step state c).bind fun next => run next text :=
  List.foldlM_cons

theorem run_append (state : State) (front back : List Char) :
    run state (front ++ back) = (run state front).bind fun between => run between back :=
  List.foldlM_append ..

theorem run_text (h : '<' ∉ text) :
    run ⟨stack, content, .text raw⟩ text = some ⟨stack, content, .text (raw ++ text)⟩ := by
  induction text generalizing raw with
  | nil => rw [List.append_nil]; rfl
  | cons c text ih =>
    obtain ⟨hc, htext⟩ := List.ne_and_not_mem_of_not_mem_cons h
    rw [run_cons, step, if_neg (Ne.symm hc), Option.bind_some, ih htext, List.append_assoc, List.singleton_append]

theorem run_inside (h : '>' ∉ text) :
    run ⟨stack, content, .tag inside⟩ text = some ⟨stack, content, .tag (inside ++ text)⟩ := by
  induction text generalizing inside with
  | nil => rw [List.append_nil]; rfl
  | cons c text ih =>
    obtain ⟨hc, htext⟩ := List.ne_and_not_mem_of_not_mem_cons h
    rw [run_cons, step, if_neg (Ne.symm hc), Option.bind_some, ih htext, List.append_assoc, List.singleton_append]

/-- A tag ends the text before it and does what stands between its brackets. -/
theorem run_tag (h : '>' ∉ inside) (hraw : unescape raw = some text) :
    run ⟨stack, content, .text raw⟩ ('<' :: inside ++ ['>']) =
      (readTag stack (content ++ textNodes text) inside).map fun (stack, content) => ⟨stack, content, .text []⟩ := by
  rw [List.cons_append, run_cons, step, if_pos rfl, hraw, Option.map_some, Option.bind_some, run_append,
    run_inside h, Option.bind_some, List.nil_append, run_cons, step, if_pos rfl]
  exact Option.bind_fun_some _

theorem unescape_escapeChar (c : Char) (rest : List Char) :
    unescape (Element.escapeChar c ++ rest) = (unescape rest).map (c :: ·) := by
  unfold Element.escapeChar
  split_ifs with hamp hlt hgt hquot hapos
  · rw [hamp]; rfl
  · rw [hlt]; rfl
  · rw [hgt]; rfl
  · rw [hquot]; rfl
  · rw [hapos]; rfl
  · rw [List.singleton_append, unescape, if_neg hamp]
    all_goals simp_all

theorem unescape_flatMap_escapeChar (text : List Char) :
    unescape (text.flatMap Element.escapeChar) = some text := by
  induction text with
  | nil => rfl
  | cons c text ih => rw [List.flatMap_cons, unescape_escapeChar, ih, Option.map_some]

theorem not_mem_flatMap_escapeChar (text : List Char) : '<' ∉ text.flatMap Element.escapeChar := by
  simp only [List.mem_flatMap, not_exists, not_and]
  intro c _
  unfold Element.escapeChar
  split_ifs with hamp hlt hgt hquot hapos
  · decide
  · decide
  · decide
  · decide
  · decide
  · simpa using Ne.symm hlt

theorem not_mem_of_isTagName (h : isTagName name.toList) (hc : c ∈ reserved) : c ∉ name.toList := by
  intro hmem
  have hall := List.all_eq_true.mp (Bool.and_eq_true_iff.mp h).2 c hmem
  simp [hc] at hall

theorem head?_ne_slash (h : isTagName name.toList) (rest : List Char) : (name.toList ++ rest).head? ≠ some '/' := by
  have hslash : '/' ∉ name.toList := not_mem_of_isTagName h (by decide)
  have hne : name.toList ≠ [] := by simpa [isTagName] using (Bool.and_eq_true_iff.mp h).1
  obtain ⟨c, more, hcons⟩ := List.exists_cons_of_ne_nil hne
  rw [hcons, List.cons_append, List.head?_cons, ne_eq, Option.some.injEq]
  rintro rfl
  exact hslash (hcons ▸ List.mem_cons_self)

/-- A tag that is no end tag opens an element or is one without content. -/
theorem readTag_of_head?_ne (h : inside.head? ≠ some '/') :
    readTag stack content inside =
      if isTagName inside then some (⟨String.ofList inside, content⟩ :: stack, [])
      else if inside.getLast? = some '/' ∧ isTagName inside.dropLast then
        some (stack, content ++ [.empty (String.ofList inside.dropLast)])
      else none := by
  unfold readTag
  split
  · exact absurd rfl h
  · rfl

theorem run_startTag (h : isTagName name.toList) :
    run ⟨stack, content, .text []⟩ (Element.startTag name) = some ⟨⟨name, content⟩ :: stack, [], .text []⟩ := by
  have hhead : name.toList.head? ≠ some '/' := by simpa using head?_ne_slash h []
  rw [Element.startTag, run_tag (not_mem_of_isTagName h (by decide)) rfl, textNodes_nil, List.append_nil,
    readTag_of_head?_ne hhead, if_pos h, String.ofList_toList, Option.map_some]

theorem run_endTag (h : isTagName name.toList) (hraw : unescape raw = some text) :
    run ⟨⟨name, before⟩ :: stack, content, .text raw⟩ (Element.endTag name) =
      some ⟨stack, before ++ [.element name (content ++ textNodes text)], .text []⟩ := by
  have hread : readTag (⟨name, before⟩ :: stack) (content ++ textNodes text) ('/' :: name.toList) =
      some (stack, before ++ [.element name (content ++ textNodes text)]) := by
    rw [readTag, if_pos h, String.ofList_toList, closeElement, if_pos rfl]
  have hinside : '>' ∉ '/' :: name.toList := by
    rw [List.mem_cons, not_or]
    exact ⟨by decide, not_mem_of_isTagName h (by decide)⟩
  rw [Element.endTag, run_tag hinside hraw, hread, Option.map_some]

theorem run_emptyTag (h : isTagName name.toList) :
    run ⟨stack, content, .text []⟩ (Element.empty name).chars =
      some ⟨stack, content ++ [.empty name], .text []⟩ := by
  have hwhole : ¬ isTagName (name.toList ++ ['/']) := by
    intro hname
    simp [isTagName, reserved] at hname
  have hlast : (name.toList ++ ['/']).getLast? = some '/' := List.getLast?_concat
  have hinside : '>' ∉ name.toList ++ ['/'] := by
    rw [List.mem_append, not_or]
    exact ⟨not_mem_of_isTagName h (by decide), by decide⟩
  have hchars : (Element.empty name).chars = '<' :: (name.toList ++ ['/']) ++ ['>'] := by
    rw [Element.chars, List.cons_append, List.cons_append, List.append_assoc, List.singleton_append]
  rw [hchars, run_tag hinside rfl, textNodes_nil, List.append_nil, readTag_of_head?_ne (head?_ne_slash h ['/']),
    if_neg hwhole, List.dropLast_concat, if_pos ⟨hlast, h⟩, String.ofList_toList, Option.map_some]

end Markup

mutual

/-- An element as it is read. -/
def Element.node : Element → Markup.Node
  | .empty name => .empty name
  | .text name content => .element name (Markup.textNodes content.toList)
  | .parent name children => .element name (forestNodes children)

def Element.forestNodes : List Element → List Markup.Node
  | [] => []
  | element :: rest => element.node :: forestNodes rest

end

namespace Markup

mutual

theorem run_chars {stack : List Frame} {content : List Node} (element : Element)
    (h : ∀ name ∈ element.node.names, isTagName name.toList) :
    run ⟨stack, content, .text []⟩ element.chars = some ⟨stack, content ++ [element.node], .text []⟩ := by
  match element with
  | .empty name =>
    rw [Element.node]
    exact run_emptyTag (h name (by rw [Element.node, Node.names]; exact List.mem_singleton_self name))
  | .text name text =>
    rw [Element.node, Node.names, forestNames_textNodes, List.forall_mem_singleton] at h
    rw [Element.chars, Element.node, List.append_assoc, run_append, run_startTag h, Option.bind_some, run_append,
      run_text (not_mem_flatMap_escapeChar _), Option.bind_some, List.nil_append,
      run_endTag h (unescape_flatMap_escapeChar _), List.nil_append]
  | .parent name children =>
    rw [Element.node, Node.names, List.forall_mem_cons] at h
    rw [Element.chars, Element.node, List.append_assoc, run_append, run_startTag h.1, Option.bind_some, run_append,
      run_forestChars children h.2, Option.bind_some, run_endTag h.1 rfl, textNodes_nil,
      List.append_nil, List.nil_append]

theorem run_forestChars {stack : List Frame} {content : List Node} (forest : List Element)
    (h : ∀ name ∈ forestNames (Element.forestNodes forest), isTagName name.toList) :
    run ⟨stack, content, .text []⟩ (Element.forestChars forest) =
      some ⟨stack, content ++ Element.forestNodes forest, .text []⟩ := by
  match forest with
  | [] => rw [Element.forestChars, Element.forestNodes, List.append_nil]; rfl
  | element :: rest =>
    rw [Element.forestNodes, forestNames, List.forall_mem_append] at h
    rw [Element.forestChars, Element.forestNodes, run_append, run_chars element h.1, Option.bind_some,
      run_forestChars rest h.2, List.append_assoc, List.singleton_append]

end

/-- What was written as an element is read as that element. -/
theorem read_chars {element : Element} (h : ∀ name ∈ element.node.names, isTagName name.toList) :
    read element.chars = some element.node := by
  rw [read, State.start, run_chars element h, List.nil_append]

end Markup
end DocExport
