import GraphQL.Text.Hex
import GraphQL.Yaml.Cursor

/-!
# Contents of YAML scalars

Plain and quoted scalars are folded: a line break with the blanks around it counts as a space, and
of several line breaks all but the first are kept. Block scalars consist of whole lines behind a
header; the literal ones keep their line breaks, the folded ones join neighbouring lines.
-/

namespace GraphQL.Yaml

/-! ## Gaps -/

/-- Blanks and line breaks between two words. -/
structure Gap where
  /-- The number of characters. -/
  length : Nat := 0
  blanks : List Char := []
  breaks : Nat := 0

namespace Gap

/-- Whether the second word stands in another line. -/
def isBroken (gap : Gap) : Bool := gap.breaks != 0

/-- What the gap adds to the content of a scalar. -/
def folded (gap : Gap) : List Char :=
  match gap.breaks with
  | 0 => gap.blanks
  | 1 => [' ']
  | n + 2 => List.replicate (n + 1) '\n'

/-- The gap at the beginning of a text. If a line break stands before, in the gap or (`broken`) in
    front of it, then tabs are not allowed to the left of the column `margin`. -/
def read? (margin : Nat) (broken : Bool) (column : Nat) : List Char → Option Gap
  | [] => some {}
  | '\r' :: '\n' :: rest =>
    (read? margin true 0 rest).map fun gap =>
      { gap with length := gap.length + 2, breaks := gap.breaks + 1 }
  | c :: rest =>
    if isBreak c then
      (read? margin true (if c = '\n' then 0 else column + 1) rest).map fun gap =>
        { gap with length := gap.length + 1, breaks := gap.breaks + 1 }
    else if isBlank c then
      if broken && c = '\t' && column < margin then none
      else
        (read? margin broken (column + 1) rest).map fun gap =>
          { gap with length := gap.length + 1, blanks := c :: gap.blanks }
    else some {}

end Gap

/-! ## Plain scalars -/

/-- The word of a plain scalar at the beginning of a text. A colon ends it in front of a space and,
    as all of their notation, in flow collections. -/
def plainWord (flow : Bool) : List Char → List Char
  | [] => []
  | c :: rest =>
    if isSpace c then []
    else if c = ':' && (wordEnds rest || (flow && rest.head?.any isFlow)) then []
    else if flow && isFlow c then []
    else c :: plainWord flow rest

/-- What is read of a plain scalar. -/
structure Plain where
  content : List Char
  /-- Whether a line break behind the scalar has been read. -/
  broken : Bool

/-- A plain scalar from one of its gaps on. In block collections the lines of a scalar are indented
    at least to the column `margin`. -/
def plainFrom (flow : Bool) (margin : Nat) (gap : Gap) (cursor : Cursor) :
    Option (Plain × Cursor) :=
  if cursor.atDocumentMark || cursor.rest.head? = some '#' then some (⟨[], gap.isBroken⟩, cursor)
  else
    let word := plainWord flow cursor.rest
    let joined := if word.isEmpty then [] else gap.folded ++ word
    let behind := cursor.skip word.length
    match Gap.read? margin false behind.column behind.rest with
    | none => none
    | some following =>
      let after := behind.skip following.length
      if _ : after.rest.length < behind.rest.length then
        if !flow && after.column < margin then some (⟨joined, following.isBroken⟩, after)
        else
          (plainFrom flow margin following after).map fun (plain, last) =>
            ({ plain with content := joined ++ plain.content }, last)
      else some (⟨joined, word.isEmpty && gap.isBroken⟩, behind)
termination_by cursor.rest.length
decreasing_by exact Nat.lt_of_lt_of_le ‹_› (cursor.length_skip_le _)

/-- A plain scalar. -/
def plain (flow : Bool) (margin : Nat) : Reader Plain := fun cursor =>
  plainFrom flow margin {} cursor

/-! ## Quoted scalars -/

/-- The character behind a letter escape. -/
def letterEscape? (c : Char) : Option Char :=
  match c with
  | '0' => some '\x00'
  | 'a' => some '\x07'
  | 'b' => some '\x08'
  | 't' | '\t' => some '\t'
  | 'n' => some '\n'
  | 'v' => some '\x0b'
  | 'f' => some '\x0c'
  | 'r' => some '\r'
  | 'e' => some '\x1b'
  | ' ' => some ' '
  | '"' => some '"'
  | '\'' => some '\''
  | '\\' => some '\\'
  | 'N' => some '\u0085'
  | '_' => some '\u00a0'
  | 'L' => some '\u2028'
  | 'P' => some '\u2029'
  | _ => none

/-- The number of digits behind the letter of a numeric escape. -/
def escapeWidth? (c : Char) : Option Nat :=
  match c with
  | 'x' => some 2
  | 'u' => some 4
  | 'U' => some 8
  | _ => none

/-- The character of an escape behind its backslash, and the number of characters of the escape. -/
def escape? : List Char → Option (Char × Nat)
  | [] => none
  | c :: rest =>
    match escapeWidth? c with
    | some width =>
      let digits := (rest.take width).takeWhile Text.isHex
      if digits.length = width then
        (Text.scalarValue? (Text.hexValue digits)).map fun point => (point, width + 1)
      else none
    | none => (letterEscape? c).map fun letter => (letter, 1)

/-- What stands next in a quoted scalar: its content and its number of characters. A line break
    behind a backslash is left out with the blanks behind it. -/
def quotedPiece? (double : Bool) : List Char → Option (List Char × Nat)
  | [] => none
  | c :: rest =>
    if isSpace c then (Gap.read? 0 false 0 (c :: rest)).map fun gap => (gap.folded, gap.length)
    else if double && c = '\\' then
      let width := breakLength rest
      if width = 0 then (escape? rest).map fun (point, n) => ([point], n + 1)
      else
        (Gap.read? 0 true 0 (rest.drop width)).map fun gap =>
          (List.replicate gap.breaks '\n', 1 + width + gap.length)
    else if !double && c = '\'' then some ([c], 2)
    else some ([c], 1)

/-- Whether a text begins with the closing quote. Single quotes are written twice inside. -/
def closes (double : Bool) : List Char → Bool
  | '"' :: _ => double
  | '\'' :: rest => !double && rest.head? != some '\''
  | _ => false

/-- A quoted scalar behind its first quote. -/
def quotedFrom (double : Bool) (cursor : Cursor) : Option (List Char × Cursor) :=
  if cursor.atDocumentMark then none
  else if closes double cursor.rest then some ([], cursor.next)
  else
    match quotedPiece? double cursor.rest with
    | none => none
    | some (piece, n) =>
      if _ : (cursor.skip n).rest.length < cursor.rest.length then
        (quotedFrom double (cursor.skip n)).map fun (content, last) => (piece ++ content, last)
      else none
termination_by cursor.rest.length
decreasing_by assumption

/-- A quoted scalar. -/
def quoted (double : Bool) : Reader (List Char) := do
  Reader.skip 1
  fun cursor => quotedFrom double cursor

/-! ## Block scalars -/

/-- What happens to the line breaks at the end of a block scalar. -/
inductive Chomping where
  /-- They are left out. -/
  | strip
  /-- The first one is kept. -/
  | clip
  /-- They are kept. -/
  | keep

/-- The chomping that an indicator stands for. -/
def Chomping.ofIndicator? : Option Char → Option Chomping
  | some '-' => some .strip
  | some '+' => some .keep
  | _ => none

/-- The header of a block scalar behind its first character: the chomping and how much further than
    the collection around it the content is indented, if that is said. Both may stand first. -/
def blockHeader : Reader (Chomping × Option Nat) := do
  let before ← chomping
  let increment ← indentation
  let chosen ← (do if before.isNone && increment.isSome then chomping else return before)
  Reader.lineEnd
  return (chosen.getD .clip, increment)
where
  /-- The indicator of chomping, if it stands here. -/
  chomping : Reader (Option Chomping) := do
    let chosen := Chomping.ofIndicator? (← Reader.head)
    if chosen.isSome then Reader.skip 1
    return chosen
  /-- The indicator of indentation, if it stands here. -/
  indentation : Reader (Option Nat) := do
    match ← Reader.head with
    | some c =>
      if c = '0' then failure
      else if c.isDigit then
        Reader.skip 1
        return some (c.toNat - '0'.toNat)
      else return none
    | none => return none

/-- Line breaks in front of a line of a block scalar, and the spaces that indent all of them. -/
structure Margin where
  /-- The number of characters. -/
  length : Nat := 0
  breaks : Nat := 0
  /-- The largest column that the spaces lead to. -/
  deepest : Nat := 0

/-- The line breaks and spaces at the beginning of a text. Spaces count up to the column `indent`,
    if it is known, and there must not be a tab in front of it. -/
def Margin.read? (indent : Option Nat) (column : Nat) : List Char → Option Margin
  | [] => some { deepest := column }
  | '\r' :: '\n' :: rest =>
    (Margin.read? indent 0 rest).map fun margin =>
      ⟨margin.length + 2, margin.breaks + 1, max column margin.deepest⟩
  | c :: rest =>
    let inside := indent.all (column < ·)
    if inside && c = '\t' then none
    else if inside && c = ' ' then
      (Margin.read? indent (column + 1) rest).map fun margin =>
        { margin with length := margin.length + 1 }
    else if isBreak c then
      (Margin.read? indent (if c = '\n' then 0 else column + 1) rest).map fun margin =>
        ⟨margin.length + 1, margin.breaks + 1, max column margin.deepest⟩
    else some { deepest := column }

/-- What stands between two lines of a block scalar that have been read. -/
structure Seam where
  /-- Whether a line stands before, and whether it begins with a blank. -/
  before : Option Bool := none
  /-- The line breaks behind the one that ends the line before. -/
  breaks : Nat := 0

/-- What a seam adds to the content in front of a line. A folded scalar joins two lines unless one
    of them begins with a blank. -/
def Seam.joined (literal startsBlank : Bool) (seam : Seam) : List Char :=
  let first := match seam.before with
    | none => []
    | some previousBlank =>
      if literal || previousBlank || startsBlank then ['\n']
      else if seam.breaks = 0 then [' ']
      else []
  first ++ List.replicate seam.breaks '\n'

/-- What a seam adds to the content at its end. -/
def Seam.ending (chomping : Chomping) (seam : Seam) : List Char :=
  let first := if seam.before.isSome then ['\n'] else []
  match chomping with
  | .strip => []
  | .clip => first
  | .keep => first ++ List.replicate seam.breaks '\n'

/-- The lines of a block scalar from a seam on. They begin in the column `indent`. -/
def blockFrom (literal : Bool) (chomping : Chomping) (indent : Nat) (seam : Seam)
    (cursor : Cursor) : Option (List Char × Cursor) :=
  if cursor.column ≠ indent ∨ cursor.rest.isEmpty then some (seam.ending chomping, cursor)
  else
    let line := cursor.rest.takeWhile fun c => !isBreak c
    let startsBlank := line.head?.any isBlank
    let content := seam.joined literal startsBlank ++ line
    let behind := cursor.skip line.length
    if behind.rest.isEmpty then some (content, behind)
    else
      let start := behind.skip (breakLength behind.rest)
      match Margin.read? (some indent) start.column start.rest with
      | none => none
      | some margin =>
        let after := start.skip margin.length
        if _ : after.rest.length < cursor.rest.length then
          (blockFrom literal chomping indent ⟨some startsBlank, margin.breaks⟩ after).map
            fun (more, last) => (content ++ more, last)
        else none
termination_by cursor.rest.length
decreasing_by assumption

/-- A block scalar in a block collection whose content is indented at least to the column `least`.
    Without an indicator the first line that is not blank says where lines begin, but no line before
    it is indented further. -/
def blockScalar (least : Nat) : Reader (List Char) := do
  let literal := (← Reader.head) = some '|'
  Reader.skip 1
  let (chomping, increment) ← blockHeader
  let said := increment.map fun n => least - 1 + n
  let cursor ← get
  let some margin := Margin.read? said cursor.column cursor.rest | failure
  Reader.skip margin.length
  let indent := said.getD (max 1 (max least margin.deepest))
  fun cursor => blockFrom literal chomping indent { breaks := margin.breaks } cursor

end GraphQL.Yaml
