import MiniTemplate.Json.Basic
import MiniTemplate.Binary64.Shortest
import MiniTemplate.Text.Quoted

/-!
# Writing JSON text

Compact text without blanks, members in order. A double that is not finite is
written `null`. How strings are quoted is a parameter: as they are, or in ASCII.
-/

namespace MiniTemplate.Json

/-- The text of a number. -/
def Number.text : Number → String
  | .int i => toString i
  | .float x => if x.isInfinite then "null" else x.text

mutual

/-- The text of a value. -/
def print (quote : String → String) : Json → String
  | .null => "null"
  | .bool true => "true"
  | .bool false => "false"
  | .num n => n.text
  | .str s => quote s
  | .arr [] => "[]"
  | .arr (v :: rest) => "[" ++ v.print quote ++ printItems quote rest ++ "]"
  | .obj [] => "\x7b\x7d"
  | .obj ((k, v) :: rest) =>
    "\x7b" ++ quote k ++ ":" ++ v.print quote ++ printMembers quote rest ++ "\x7d"

/-- The text of the items after the first. -/
def printItems (quote : String → String) : List Json → String
  | [] => ""
  | v :: rest => "," ++ v.print quote ++ printItems quote rest

/-- The text of the members after the first. -/
def printMembers (quote : String → String) : Members → String
  | [] => ""
  | (k, v) :: rest => "," ++ quote k ++ ":" ++ v.print quote ++ printMembers quote rest

end

/-- The text of a value, characters beyond ASCII as they are. -/
def text (v : Json) : String := v.print Text.quote

/-- The text of a value in ASCII. -/
def asciiText (v : Json) : String := v.print Text.quoteAscii

end MiniTemplate.Json
