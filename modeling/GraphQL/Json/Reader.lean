import GraphQL.Decimal.Notation
import GraphQL.Json.Outline

/-!
# Reading JSON texts

`Json.Outline.read` reads a whole text. The grammar is that of the standard, nothing more: no byte
order mark, no comments, no comma behind the last item. Arrays and objects may nest 127 deep; what
lies deeper is read for its form only.

Every reading step takes the characters that are left and gives back those that remain, always
fewer, so the length of the text bounds the number of steps.
-/

namespace GraphQL.Json.Reader

/-- The deepest nesting whose content is read. -/
def maxDepth : Nat := 127

/-- Blanks between the parts of a text. -/
def isBlank (c : Char) : Bool := c = ' ' || c = '\t' || c = '\n' || c = '\r'

/-- Leaves out leading blanks. -/
def skip (cs : List Char) : List Char := cs.dropWhile isBlank

/-- The value of four hexadecimal digits. -/
def hexUnit? (a b c d : Char) : Option Nat :=
  if [a, b, c, d].all GraphQL.Text.isHex then some (GraphQL.Text.hexValue [a, b, c, d]) else none

/-- The character behind a letter escape. -/
def letterEscape? (c : Char) : Option Char :=
  if c = '"' then some '"'
  else if c = '\\' then some '\\'
  else if c = '/' then some '/'
  else if c = 'b' then some '\x08'
  else if c = 'f' then some '\x0c'
  else if c = 'n' then some '\n'
  else if c = 'r' then some '\r'
  else if c = 't' then some '\t'
  else none

/-- Reads the rest of a string behind its opening quote: the code units, last one first, and what
    follows the closing quote. -/
def units? : List Char → List Nat → Option (List Nat × List Char)
  | [], _ => none
  | '"' :: rest, read => some (read, rest)
  | '\\' :: 'u' :: a :: b :: c :: d :: rest, read =>
    match hexUnit? a b c d with
    | some u => units? rest (u :: read)
    | none => none
  | '\\' :: e :: rest, read =>
    match letterEscape? e with
    | some c => units? rest (c.toNat :: read)
    | none => none
  | c :: rest, read => if c.toNat < 0x20 then none else units? rest (c.toNat :: read)

/-- Joins surrogate pairs. A surrogate without its other half stands for no character. -/
def joinUnits : List Nat → Option (List Char)
  | [] => some []
  | u :: rest =>
    if GraphQL.Text.isHighSurrogate u then
      match rest with
      | v :: rest =>
        if GraphQL.Text.isLowSurrogate v then
          (joinUnits rest).map (GraphQL.Text.joinSurrogates u v :: ·)
        else none
      | [] => none
    else if GraphQL.Text.isLowSurrogate u then none
    else (joinUnits rest).map (Char.ofNat u :: ·)

/-- Reads a string behind its opening quote. The string is `none` if a surrogate stands alone. -/
def string? (cs : List Char) : Option (Option String × List Char) :=
  match units? cs [] with
  | some (units, rest) => some ((joinUnits units.reverse).map String.ofList, rest)
  | none => none

/-- The number that a literal stands for. A whole number keeps 64 bits; minus zero and all others
    are floating-point numbers, and those out of range stand for nothing. -/
def interpret (isWhole : Bool) (literal : List Char) : Outline :=
  let i := Decimal.signedDigits literal
  let isMinusZero := literal.head? = some '-' ∧ i = 0
  if isWhole ∧ Int64.minValue.toInt ≤ i ∧ i < UInt64.size ∧ ¬ isMinusZero then
    .number (.integer i)
  else
    match (Decimal.ofText literal).toFinite? with
    | some f => .number (.float f)
    | none => .unreadable

/-- Reads a number. -/
def number? (cs : List Char) : Option (Outline × List Char) :=
  match NumberShape.of? cs with
  | none => none
  | some shape => some (interpret shape.isWhole (cs.take shape.length), cs.drop shape.length)

/-- Reads a word and gives `result` for it. -/
def word? (word : String) (result : Outline) (cs : List Char) : Option (Outline × List Char) :=
  if word.toList.isPrefixOf cs then some (result, cs.drop word.length) else none

/-- Hides content that lies too deep. -/
def limit (room : Nat) (content : Outline) : Outline := if room = 0 then .unreadable else content

mutual

/-- Reads a value. `steps` bounds the number of reading steps, `room` the nesting that is left. -/
def value? : Nat → Nat → List Char → Option (Outline × List Char)
  | 0, _, _ => none
  | steps + 1, room, cs =>
    match skip cs with
    | [] => none
    | '"' :: rest =>
      match string? rest with
      | some (some s, rest) => some (.string s, rest)
      | some (none, rest) => some (.unreadable, rest)
      | none => none
    | '[' :: rest =>
      match skip rest with
      | ']' :: rest => some (limit room (.array []), rest)
      | rest =>
        match items? steps (room - 1) [] rest with
        | some (items, rest) => some (limit room (.array items), rest)
        | none => none
    | '\x7b' :: rest =>
      match skip rest with
      | '\x7d' :: rest => some (limit room (.object []), rest)
      | rest =>
        match members? steps (room - 1) [] rest with
        | some (members, rest) => some (limit room (.object members), rest)
        | none => none
    | 't' :: rest => word? "true" (.bool true) ('t' :: rest)
    | 'f' :: rest => word? "false" (.bool false) ('f' :: rest)
    | 'n' :: rest => word? "null" .null ('n' :: rest)
    | rest => number? rest

/-- Reads the items of an array and its closing bracket; `read` holds the items so far, last one
    first. -/
def items? : Nat → Nat → List Outline → List Char → Option (List Outline × List Char)
  | 0, _, _, _ => none
  | steps + 1, room, read, cs =>
    match value? steps room cs with
    | none => none
    | some (item, rest) =>
      match skip rest with
      | ',' :: rest => items? steps room (item :: read) rest
      | ']' :: rest => some ((item :: read).reverse, rest)
      | _ => none

/-- Reads the members of an object and its closing brace. -/
def members? : Nat → Nat → List (Option String × Outline) → List Char →
    Option (List (Option String × Outline) × List Char)
  | 0, _, _, _ => none
  | steps + 1, room, read, cs =>
    match skip cs with
    | '"' :: rest =>
      match string? rest with
      | none => none
      | some (name, rest) =>
        match skip rest with
        | ':' :: rest =>
          match value? steps room rest with
          | none => none
          | some (item, rest) =>
            match skip rest with
            | ',' :: rest => members? steps room ((name, item) :: read) rest
            | '\x7d' :: rest => some (((name, item) :: read).reverse, rest)
            | _ => none
        | _ => none
    | _ => none

end

end GraphQL.Json.Reader

namespace GraphQL

/-- Reads a JSON text, which holds one value and blanks around it. -/
def Json.Outline.read? (s : String) : Option Json.Outline :=
  let cs := s.toList
  match Json.Reader.value? (2 * cs.length + 2) Json.Reader.maxDepth cs with
  | some (outline, rest) => if (Json.Reader.skip rest).isEmpty then some outline else none
  | none => none

/-- Reads a JSON text as a value. -/
def Json.read? (s : String) : Option Json := (Json.Outline.read? s).bind Json.Outline.value?

end GraphQL
