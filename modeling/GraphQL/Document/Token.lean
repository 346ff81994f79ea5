import GraphQL.Decimal.Notation
import GraphQL.Text.Hex
import GraphQL.Text.Position

/-!
# Tokens of documents

`Token.scan` cuts a document into tokens. Blanks, comments and commas separate tokens and mean
nothing, but a token remembers whether a comma stands before it. Every piece of the text counts
towards the token limit: tokens, runs of blanks, comments, commas and the end of the text.

Strings are interpreted here: escapes in quoted strings, common indentation in block strings.
-/

namespace GraphQL

/-- What a token is. -/
inductive Token.Kind where
  | bang
  | dollar
  | amp
  | parenL
  | parenR
  | spread
  | colon
  | equals
  | atSign
  | bracketL
  | bracketR
  | braceL
  | pipe
  | braceR
  | name (text : String)
  | int (text : String)
  | float (text : String)
  | string (content : String)
  deriving Repr, DecidableEq

/-- A token, where it begins, and whether a comma stands between it and the token before. -/
structure Token where
  kind : Token.Kind
  location : Location
  afterComma : Bool
  deriving Repr, DecidableEq

namespace Token

/-! ## Character classes -/

/-- Blanks, line ends and the byte order mark. -/
def isBlank (c : Char) : Bool :=
  c = ' ' || c = '\t' || c = '\n' || c = '\r' || c = '\ufeff'

/-- The two characters that end a line. -/
def isNewline (c : Char) : Bool := c = '\n' || c = '\r'

/-- Letters and the underscore. -/
def isNameStart (c : Char) : Bool := c.isAlpha || c = '_'

/-- Letters, digits and the underscore. -/
def isNameContinue (c : Char) : Bool := c.isAlphanum || c = '_'

/-- The tokens of one character. -/
def punctuator? (c : Char) : Option Kind :=
  match c with
  | '!' => some .bang
  | '$' => some .dollar
  | '&' => some .amp
  | '(' => some .parenL
  | ')' => some .parenR
  | ':' => some .colon
  | '=' => some .equals
  | '@' => some .atSign
  | '[' => some .bracketL
  | ']' => some .bracketR
  | '\x7b' => some .braceL
  | '|' => some .pipe
  | '\x7d' => some .braceR
  | _ => none

/-! ## Numbers -/

/-- Whether a number may end before `rest`: neither a name nor a point follows it. -/
def numberEnds (rest : List Char) : Bool :=
  match rest.head? with
  | some c => !(isNameStart c || c = '.')
  | none => true

/-- A number at the beginning of a text, with its length. -/
def number? (cs : List Char) : Option (Kind × Nat) :=
  match NumberShape.of? cs with
  | none => none
  | some shape =>
    let text := String.ofList (cs.take shape.length)
    if numberEnds (cs.drop shape.length) then
      some (if shape.isWhole then .int text else .float text, shape.length)
    else none

/-! ## Quoted strings -/

/-- The number of characters before the closing quote of a string, if they lie on one line. -/
def quotedLength? : List Char → Option Nat
  | [] => none
  | '"' :: _ => some 0
  | '\\' :: c :: rest => if isNewline c then none else (quotedLength? rest).map (· + 2)
  | c :: rest => if isNewline c then none else (quotedLength? rest).map (· + 1)

/-- The number of characters between the quotes of a string. A line end may stand right behind the
    opening quote, but nowhere else. -/
def contentLength? : List Char → Option Nat
  | [] => none
  | c :: rest =>
    if isNewline c then (quotedLength? rest).map (· + 1) else quotedLength? (c :: rest)

/-- The character behind a letter escape. -/
def letterEscape? (c : Char) : Option Char :=
  match c with
  | '"' => some '"'
  | '\\' => some '\\'
  | '/' => some '/'
  | 'b' => some '\x08'
  | 'f' => some '\x0c'
  | 'n' => some '\n'
  | 'r' => some '\r'
  | 't' => some '\t'
  | _ => none

/-- The code point written in braces at the beginning of a text, with its length. -/
def bracedPoint? (cs : List Char) : Option (Char × Nat) :=
  let digits := cs.takeWhile Text.isHex
  if digits.isEmpty ∨ (cs.drop digits.length).head? ≠ some '\x7d' then none
  else (Text.scalarValue? (Text.hexValue digits)).map fun c => (c, digits.length + 1)

/-- The code unit of four digits at the beginning of a text. -/
def unit? (cs : List Char) : Option Nat :=
  let digits := (cs.take 4).takeWhile Text.isHex
  if digits.length = 4 then some (Text.hexValue digits) else none

/-- The character of a code point escape behind its letter, with the length of what is left of the
    escape. The first half of a surrogate pair needs the second one in an escape right behind it. -/
def unicodeEscape? (cs : List Char) : Option (Char × Nat) :=
  if cs.head? = some '\x7b' then (bracedPoint? (cs.drop 1)).map fun (c, n) => (c, n + 1)
  else
    match unit? cs with
    | none => none
    | some u =>
      if Text.isHighSurrogate u then
        match cs.drop 4 with
        | '\\' :: 'u' :: rest =>
          match unit? rest with
          | some v => if Text.isLowSurrogate v then some (Text.joinSurrogates u v, 10) else none
          | none => none
        | _ => none
      else (Text.scalarValue? u).map fun c => (c, 4)

/-- Interprets the escapes of a quoted string. -/
def unescape? : List Char → Option (List Char)
  | [] => some []
  | '\\' :: 'u' :: rest =>
    match unicodeEscape? rest with
    | some (c, n) => (unescape? (rest.drop n)).map (c :: ·)
    | none => none
  | '\\' :: e :: rest =>
    match letterEscape? e with
    | some c => (unescape? rest).map (c :: ·)
    | none => none
  | '\\' :: [] => none
  | c :: rest => (unescape? rest).map (c :: ·)
termination_by cs => cs.length
decreasing_by
  · rw [List.length_drop, List.length_cons, List.length_cons]
    exact Nat.lt_succ_of_le (Nat.le_succ_of_le (Nat.sub_le rest.length n))
  · exact Nat.lt_succ_of_le (Nat.le_succ rest.length)
  · exact Nat.lt_succ_self rest.length

/-! ## Block strings -/

/-- The content of a block string behind its opening quotes, and the number of characters up to its
    closing quotes. Three quotes behind a backslash do not close it. -/
def blockContent? : List Char → Option (List Char × Nat)
  | [] => none
  | '\\' :: '"' :: '"' :: '"' :: rest =>
    (blockContent? rest).map fun (content, n) => ('"' :: '"' :: '"' :: content, n + 4)
  | '"' :: '"' :: '"' :: _ => some ([], 0)
  | c :: rest => (blockContent? rest).map fun (content, n) => (c :: content, n + 1)

/-- Cuts a text at its line ends. -/
def lines : List Char → List (List Char)
  | [] => [[]]
  | '\r' :: '\n' :: rest => [] :: lines rest
  | c :: rest =>
    if isNewline c then [] :: lines rest
    else match lines rest with
      | line :: others => (c :: line) :: others
      | [] => [[c]]

/-- The blanks that count as indentation. -/
def isIndent (c : Char) : Bool := c = ' ' || c = '\t'

/-- The indentation of a line that holds something. -/
def indentOf? (line : List Char) : Option Nat :=
  if line.all isIndent then none else some (line.takeWhile isIndent).length

/-- Removes the indentation that all lines but the first share, and blank lines at both ends. -/
def dedent (content : List Char) : List Char :=
  let all := lines content
  let common := ((all.drop 1).filterMap indentOf?).min?.getD 0
  let cut := all.take 1 ++ (all.drop 1).map (List.drop common)
  let blank (line : List Char) : Bool := line.all isIndent
  let kept := ((cut.dropWhile blank).reverse.dropWhile blank).reverse
  List.intercalate ['\n'] kept

/-! ## Pieces -/

/-- A piece of a document. -/
inductive Piece where
  | token (kind : Kind)
  | comma
  | separator

/-- A string behind its first quote, with the number of characters that belong to it. -/
def string? : List Char → Option (Piece × Nat)
  | '"' :: '"' :: rest =>
    (blockContent? rest).map fun (content, n) =>
      (.token (.string (String.ofList (dedent content))), n + 5)
  | rest => do
    let n ← contentLength? rest
    let content ← unescape? (rest.take n)
    return (.token (.string (String.ofList content)), n + 1)

/-- The piece that begins with `c`, and the number of characters of `rest` that belong to it. -/
def piece? (c : Char) (rest : List Char) : Option (Piece × Nat) :=
  match punctuator? c with
  | some kind => some (.token kind, 0)
  | none =>
    if isNameStart c then
      let more := rest.takeWhile isNameContinue
      some (.token (.name (String.ofList (c :: more))), more.length)
    else if c.isDigit || c = '-' then
      (number? (c :: rest)).map fun (kind, n) => (.token kind, n - 1)
    else if isBlank c then some (.separator, (rest.takeWhile isBlank).length)
    else if c = ',' then some (.comma, 0)
    else if c = '#' then some (.separator, (rest.takeWhile fun d => !isNewline d).length)
    else if c = '"' then string? rest
    else if c = '.' ∧ rest.take 2 = ['.', '.'] then some (.token .spread, 2)
    else none

/-- Cuts a text into tokens. `room` is the number of pieces that are still allowed, one of which is
    the end of the text; `read` holds the tokens so far, last one first. -/
def scanFrom (room : Nat) (position : Text.Position) (afterComma : Bool) (read : List Token) :
    List Char → Option (List Token)
  | [] => if room = 0 then none else some read.reverse
  | c :: rest =>
    if room = 0 then none
    else
      match piece? c rest with
      | none => none
      | some (piece, n) =>
        let next := position.after (c :: rest.take n) (rest.drop n)
        match piece with
        | .token kind =>
          scanFrom (room - 1) next false
            (⟨kind, position.toLocation, afterComma⟩ :: read) (rest.drop n)
        | .comma => scanFrom (room - 1) next true read (rest.drop n)
        | .separator => scanFrom (room - 1) next afterComma read (rest.drop n)
termination_by cs => cs.length
decreasing_by
  all_goals
    rw [List.length_drop, List.length_cons]
    exact Nat.lt_succ_of_le (Nat.sub_le rest.length n)

/-- Cuts a document into tokens. `none` means that some piece is no token or that there are more
    pieces than `limit`. -/
def scan (limit : Nat) (document : String) : Option (List Token) :=
  scanFrom limit .start false [] document.toList

end Token

end GraphQL
