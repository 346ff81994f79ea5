/-!
# Positions in a text

A position is a line and a column, both counted from one. Columns count bytes of UTF-8. Every line
terminator of Unicode ends a line, and a carriage return together with the line feed behind it
counts as one.
-/

namespace GraphQL

/-- A place in a document. -/
structure Location where
  line : UInt32
  column : UInt32
  deriving Repr, DecidableEq

namespace Text

/-- A place in a text, not yet cut to the width that reports use. -/
structure Position where
  line : Nat
  column : Nat
  deriving Repr, DecidableEq

namespace Position

/-- The beginning of a text. -/
def start : Position := ⟨1, 1⟩

/-- Line feed, vertical tab, form feed, carriage return, next line, line and paragraph separator. -/
def endsLine (c : Char) : Bool :=
  c = '\n' || c = '\x0b' || c = '\x0c' || c = '\r' || c = '\u0085' || c = '\u2028' || c = '\u2029'

/-- The position behind the characters `passed`, when `rest` follows them. -/
def after (p : Position) : List Char → List Char → Position
  | [], _ => p
  | c :: passed, rest =>
    let joined := c = '\r' && passed.head?.or rest.head? = some '\n'
    let next : Position :=
      if endsLine c && !joined then ⟨p.line + 1, 1⟩ else ⟨p.line, p.column + c.utf8Size⟩
    after next passed rest

/-- The position as reports give it. -/
def toLocation (p : Position) : Location := ⟨UInt32.ofNat p.line, UInt32.ofNat p.column⟩

end Position

end Text

end GraphQL
