/-!
# Cursors in YAML texts

A `Cursor` stands in a text and knows the line and the column of the next character. Line feeds and
carriage returns are line breaks, together they are one; but only a line feed begins a new line in
the count of lines and columns.

A `Reader` moves a cursor forward or fails.
-/

namespace GraphQL.Yaml

/-! ## Character classes -/

/-- Whether a character ends a line. -/
def isBreak (c : Char) : Bool := c = '\n' || c = '\r'

/-- Spaces and tabs. -/
def isBlank (c : Char) : Bool := c = ' ' || c = '\t'

/-- Whether a character separates words. -/
def isSpace (c : Char) : Bool := isBlank c || isBreak c

/-- Whether a character is part of the notation of flow collections. -/
def isFlow (c : Char) : Bool := c = ',' || c = '[' || c = ']' || c = '\x7b' || c = '\x7d'

/-- Whether a character can be part of the name of an anchor, a directive or a tag handle. -/
def isNameChar (c : Char) : Bool := c.isAlphanum || c = '_' || c = '-'

/-- Whether a word that stands in front of this text ends there. -/
def wordEnds (rest : List Char) : Bool := rest.head?.all isSpace

/-- The number of characters of the line break at the beginning of a text. -/
def breakLength : List Char → Nat
  | '\r' :: '\n' :: _ => 2
  | c :: _ => if isBreak c then 1 else 0
  | [] => 0

/-! ## Cursors -/

/-- A place in a text. -/
structure Cursor where
  /-- The text from here on. -/
  rest : List Char
  index : Nat := 0
  line : Nat := 0
  column : Nat := 0

namespace Cursor

/-- The place behind the next character. -/
def next (cursor : Cursor) : Cursor :=
  match cursor.rest with
  | [] => cursor
  | c :: rest =>
    if c = '\n' then ⟨rest, cursor.index + 1, cursor.line + 1, 0⟩
    else ⟨rest, cursor.index + 1, cursor.line, cursor.column + 1⟩

/-- The place behind the next `n` characters. -/
def skip (cursor : Cursor) : Nat → Cursor
  | 0 => cursor
  | n + 1 => cursor.next.skip n

theorem rest_next (cursor : Cursor) : cursor.next.rest = cursor.rest.drop 1 := by
  obtain ⟨rest, index, line, column⟩ := cursor
  cases rest with
  | nil => rfl
  | cons c rest =>
    by_cases h : c = '\n'
    · simp [next, h]
    · simp [next, h]

theorem rest_skip (cursor : Cursor) (n : Nat) : (cursor.skip n).rest = cursor.rest.drop n := by
  induction n generalizing cursor with
  | zero => rfl
  | succ n ih => rw [skip, ih, rest_next, List.drop_drop, Nat.add_comm]

/-- Skipping leaves no more text than there was. -/
theorem length_skip_le (cursor : Cursor) (n : Nat) :
    (cursor.skip n).rest.length ≤ cursor.rest.length := by
  rw [rest_skip, List.length_drop]
  exact Nat.sub_le cursor.rest.length n

/-- Whether a mark of three characters stands here as a word at the beginning of a line. -/
def atMark (cursor : Cursor) (mark : String) : Bool :=
  cursor.column = 0 && mark.toList.isPrefixOf cursor.rest && wordEnds (cursor.rest.drop 3)

/-- Whether a mark stands here that begins or ends a document. -/
def atDocumentMark (cursor : Cursor) : Bool := cursor.atMark "---" || cursor.atMark "..."

end Cursor

/-! ## Readers -/

/-- A step forward that gives something, or fails. -/
abbrev Reader := StateT Cursor Option

namespace Reader

/-- The text from here on. -/
def text : Reader (List Char) := do return (← get).rest

/-- The next character, left in place. -/
def head : Reader (Option Char) := do return (← text).head?

/-- Takes so many characters. -/
def skip (n : Nat) : Reader Unit := modify fun cursor => cursor.skip n

/-- Takes the characters of a class. -/
def takeWhile (p : Char → Bool) : Reader (List Char) := do
  let taken := (← text).takeWhile p
  skip taken.length
  return taken

/-- Takes blanks. -/
def blanks : Reader Unit := do
  let _ ← takeWhile isBlank

/-- Takes a given character. -/
def expect (c : Char) : Reader Unit := do
  if (← head) = some c then skip 1 else failure

/-- Takes what may stand behind the last word of a line: blanks, a comment and the line break. -/
def lineEnd : Reader Unit := do
  blanks
  if (← head) = some '#' then
    let _ ← takeWhile fun c => !isBreak c
  if (← head).all isBreak then skip (breakLength (← text)) else failure

end Reader

end GraphQL.Yaml
