import GraphQL.Text.Hex
import GraphQL.Yaml.Cursor

/-!
# YAML tags, anchors and directives

What stands behind `!` in front of a node, behind `&` and `*`, and behind `%` in front of a
document. Directives are checked and have no other effect.
-/

namespace GraphQL.Yaml

/-- A tag: its handle, which is empty for a tag in angle brackets, and the rest. -/
structure Tag where
  handle : String
  suffix : String
  deriving Repr, DecidableEq

/-! ## Tags -/

/-- The characters of tags that need no escape. -/
def isTagChar (c : Char) : Bool := isNameChar c || ";/?:@&=+$,.!~*'()[]".toList.contains c

/-- The byte of an escape at the beginning of a text. -/
def escapedByte? : List Char → Option Nat
  | '%' :: a :: b :: _ =>
    if Text.isHex a && Text.isHex b then some (Text.hexValue [a, b]) else none
  | _ => none

/-- The number of bytes of a character that begins with this byte. -/
def byteCount? (byte : Nat) : Option Nat :=
  if byte < 0x80 then some 1
  else if byte < 0xc0 then none
  else if byte < 0xe0 then some 2
  else if byte < 0xf0 then some 3
  else if byte < 0xf8 then some 4
  else none

/-- Further bytes of an escaped character, so many of them, behind those with the value `code`. -/
def escapedTail? (code : Nat) : Nat → List Char → Option Nat
  | 0, _ => some code
  | n + 1, cs =>
    match escapedByte? cs with
    | some byte =>
      if byte < 0x80 || 0xc0 ≤ byte then none
      else escapedTail? (256 * code + byte) n (cs.drop 3)
    | none => none

/-- An escaped character at the beginning of a text, with its number of bytes. The bytes are put one
    after the other as they are. -/
def tagEscape? (cs : List Char) : Option (Char × Nat) := do
  let byte ← escapedByte? cs
  let count ← byteCount? byte
  let code ← escapedTail? byte (count - 1) (cs.drop 3)
  return (← Text.scalarValue? code, count)

/-- The characters of a tag at the beginning of a text, and how many characters stand for them. -/
def tagText? : List Char → Option (List Char × Nat)
  | [] => some ([], 0)
  | c :: rest =>
    if c = '%' then
      match tagEscape? (c :: rest) with
      | none => none
      | some (point, bytes) =>
        let width := 3 * bytes - 1
        (tagText? (rest.drop width)).map fun (more, n) => (point :: more, n + width + 1)
    else if isTagChar c then (tagText? rest).map fun (more, n) => (c :: more, n + 1)
    else some ([], 0)
termination_by cs => cs.length
decreasing_by
  · rw [List.length_drop, List.length_cons]
    exact Nat.lt_succ_of_le (Nat.sub_le rest.length (3 * bytes - 1))
  · exact Nat.lt_succ_self rest.length

namespace Reader

/-- Takes the characters of a tag. -/
def tagText : Reader (List Char) := do
  let some (content, n) := tagText? (← text) | failure
  skip n
  return content

/-- Takes the characters of a tag, at least one. -/
def tagText1 : Reader (List Char) := do
  let content ← tagText
  if content.isEmpty then failure else return content

/-- Takes an exclamation mark, a name that may be empty, and a second mark if there is one. -/
def tagHandle : Reader (List Char × Bool) := do
  expect '!'
  let name ← takeWhile isNameChar
  let closed := (← head) = some '!'
  if closed then skip 1
  return (name, closed)

/-- Takes a tag. -/
def tag : Reader Tag := do
  let read ← (do
    if ((← text).drop 1).head? = some '<' then
      skip 2
      let content ← tagText1
      expect '>'
      return (⟨"", String.ofList content⟩ : Tag)
    else
      let (name, closed) ← tagHandle
      if closed then return ⟨"!" ++ String.ofList name ++ "!", String.ofList (← tagText1)⟩
      else
        let suffix := name ++ (← tagText)
        return if suffix.isEmpty then ⟨"", "!"⟩ else ⟨"!", String.ofList suffix⟩)
  if wordEnds (← text) then return read else failure

/-- Takes an anchor or an alias: one character and a name. -/
def anchor : Reader String := do
  skip 1
  let name ← takeWhile isNameChar
  let rest ← text
  if name.isEmpty then failure
  else if wordEnds rest || rest.head?.any ("?:,]\x7d%@`".toList.contains ·) then
    return String.ofList name
  else failure

/-- Takes a number of a version, of at most nine digits. -/
def versionNumber : Reader Unit := do
  let digits ← takeWhile Char.isDigit
  if digits.isEmpty || 9 < digits.length then failure

/-- Takes a directive with its line. -/
def directive : Reader Unit := do
  skip 1
  let name ← takeWhile isNameChar
  if name.isEmpty || !wordEnds (← text) then failure
  if name = "YAML".toList then
    blanks
    versionNumber
    expect '.'
    versionNumber
  else if name = "TAG".toList then
    blanks
    let (handle, closed) ← tagHandle
    if !closed && !handle.isEmpty then failure
    blanks
    let _ ← tagText1
    if !wordEnds (← text) then failure
  else
    let _ ← takeWhile fun c => !isBreak c
  lineEnd

end Reader

end GraphQL.Yaml
