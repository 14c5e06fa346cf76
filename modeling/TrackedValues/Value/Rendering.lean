import TrackedValues.Buffer.Views
import TrackedValues.Decimal
import TrackedValues.Value.Basic

/-!
How values are written: for people (`display`) and for debugging (`debug`). The debugging form
names every shape and quotes all text, so it tells different values apart. A content is written in
front of the text that follows it, so the time grows with the text alone and not with the nesting;
`display_list` and `debug_list` say what a written list is made of.
-/
namespace TrackedValues.Content

def comma : List Char := [',', ' ']

def bracketed (texts : List (List Char)) : List Char := ['['] ++ separated comma texts ++ [']']

/-- Text inside a list stands between quotes, without escapes. -/
def quoteOf : Content → List Char
  | text _ => ['"']
  | _ => []

mutual

def displayOnto : Content → List Char → List Char
  | integer n, rest => intText n.toInt ++ rest
  | real x, rest => x.render ++ rest
  | text bytes, rest => Utf8.lossy bytes ++ rest
  | boolean b, rest => boolText b ++ rest
  | list items, rest => '[' :: displayRowOnto [] items (']' :: rest)

/-- Elements in a row: `lead` stands before the first of them, and a comma before the others. -/
def displayRowOnto (lead : List Char) : List Content → List Char → List Char
  | [], rest => rest
  | c :: more, rest =>
    lead ++ (quoteOf c ++ displayOnto c (quoteOf c ++ displayRowOnto comma more rest))

end

def display (c : Content) : List Char := displayOnto c []

def openLabel (s : Shape) : List Char := s.name.toList ++ ['(']

def labelled (s : Shape) (payload : List Char) : List Char := openLabel s ++ payload ++ [')']

mutual

def debugOnto : Content → List Char → List Char
  | integer n, rest => labelled .integer (intText n.toInt) ++ rest
  | real x, rest => labelled .real x.render ++ rest
  | text bytes, rest => labelled .string (bytesText bytes) ++ rest
  | boolean b, rest => labelled .boolean (boolText b) ++ rest
  | list items, rest => openLabel .list ++ '[' :: debugRowOnto [] items (']' :: ')' :: rest)

def debugRowOnto (lead : List Char) : List Content → List Char → List Char
  | [], rest => rest
  | c :: more, rest => lead ++ debugOnto c (debugRowOnto comma more rest)

end

def debug (c : Content) : List Char := debugOnto c []

mutual

theorem displayOnto_append (rest tail : List Char) :
    ∀ c, displayOnto c (rest ++ tail) = displayOnto c rest ++ tail
  | integer _ => by simp [displayOnto]
  | real _ => by simp [displayOnto]
  | text _ => by simp [displayOnto]
  | boolean _ => by simp [displayOnto]
  | list items => by
    have row := displayRowOnto_append [] (']' :: rest) tail items
    rw [List.cons_append] at row
    simp [displayOnto, row]

theorem displayRowOnto_append (lead rest tail : List Char) :
    ∀ items, displayRowOnto lead items (rest ++ tail) = displayRowOnto lead items rest ++ tail
  | [] => by simp [displayRowOnto]
  | c :: more => by
    have behind := displayRowOnto_append comma rest tail more
    have first := displayOnto_append (quoteOf c ++ displayRowOnto comma more rest) tail c
    rw [List.append_assoc] at first
    simp [displayRowOnto, behind, first]

end

mutual

theorem debugOnto_append (rest tail : List Char) :
    ∀ c, debugOnto c (rest ++ tail) = debugOnto c rest ++ tail
  | integer _ => by simp [debugOnto]
  | real _ => by simp [debugOnto]
  | text _ => by simp [debugOnto]
  | boolean _ => by simp [debugOnto]
  | list items => by
    have row := debugRowOnto_append [] (']' :: ')' :: rest) tail items
    rw [List.cons_append, List.cons_append] at row
    simp [debugOnto, row]

theorem debugRowOnto_append (lead rest tail : List Char) :
    ∀ items, debugRowOnto lead items (rest ++ tail) = debugRowOnto lead items rest ++ tail
  | [] => by simp [debugRowOnto]
  | c :: more => by
    have behind := debugRowOnto_append comma rest tail more
    have first := debugOnto_append (debugRowOnto comma more rest) tail c
    simp [debugRowOnto, behind, first]

end

theorem displayOnto_eq (c : Content) (rest : List Char) : displayOnto c rest = display c ++ rest :=
  displayOnto_append [] rest c

theorem debugOnto_eq (c : Content) (rest : List Char) : debugOnto c rest = debug c ++ rest :=
  debugOnto_append [] rest c

def asElement (c : Content) : List Char := quoteOf c ++ display c ++ quoteOf c

theorem displayRowOnto_comma (items : List Content) (rest : List Char) :
    displayRowOnto comma items rest = (items.map asElement).flatMap (comma ++ ·) ++ rest := by
  induction items with
  | nil => rfl
  | cons c more ih => simp [displayRowOnto, displayOnto_eq, ih, asElement]

theorem debugRowOnto_comma (items : List Content) (rest : List Char) :
    debugRowOnto comma items rest = (items.map debug).flatMap (comma ++ ·) ++ rest := by
  induction items with
  | nil => rfl
  | cons c more ih => simp [debugRowOnto, debugOnto_eq, ih]

theorem display_list (items : List Content) :
    display (list items) = bracketed (items.map asElement) := by
  cases items with
  | nil => rfl
  | cons c more =>
    rw [display, displayOnto, displayRowOnto, displayOnto_eq c, displayRowOnto_comma]
    simp [bracketed, separated_cons, asElement]

theorem debug_list (items : List Content) :
    debug (list items) = labelled .list (bracketed (items.map debug)) := by
  cases items with
  | nil => rfl
  | cons c more =>
    rw [debug, debugOnto, debugRowOnto, debugOnto_eq c, debugRowOnto_comma]
    simp [bracketed, separated_cons, labelled]

/-- One element on each line, indented by four, with a comma behind every element. -/
def spread (texts : List (List Char)) : List Char :=
  if texts.isEmpty then ['[', ']']
  else
    ['[', '\n'] ++ texts.flatMap (fun t => [' ', ' ', ' ', ' '] ++ t ++ [',', '\n']) ++ [']']

end TrackedValues.Content

namespace TrackedValues

def Value.display (v : Value) : List Char := v.content.display

def Value.debug (v : Value) : List Char := v.content.debug

def ValueList.debug (l : ValueList) : List Char :=
  Content.bracketed ((contents l).map Content.debug)

def ValueList.debugSpread (l : ValueList) : List Char :=
  Content.spread ((contents l).map Content.debug)

end TrackedValues
