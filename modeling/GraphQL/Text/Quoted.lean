import GraphQL.Text.Printable
import GraphQL.Text.GraphemeExtend
import GraphQL.Text.Hex

/-!
# Quoted text for messages

A string in a message stands between double quotes, with everything that is not visible on its own
escaped: the two marks of the notation, the usual control characters by their letters, all other
unprintable or combining characters by their code point.
-/

namespace GraphQL.Text

/-- How one character is shown between double quotes. -/
def escaped (c : Char) : String :=
  if c = '"' then "\\\""
  else if c = '\\' then "\\\\"
  else if c = '\n' then "\\n"
  else if c = '\r' then "\\r"
  else if c = '\t' then "\\t"
  else if c.toNat = 0 then "\\0"
  else if isPrintable c && !extendsGrapheme c then String.singleton c
  else "\\u\x7b" ++ String.ofList (hexDigits c.toNat) ++ "\x7d"

/-- A string between double quotes. -/
def quoted (s : String) : String :=
  "\"" ++ String.join (s.toList.map escaped) ++ "\""

end GraphQL.Text
