import MiniTemplate.Text.Digit

/-!
# Quoted text

The quoted form of a text is the text between double quotes in which quotes,
backslashes and control characters are escaped: `\"`, `\\`, `\b`, `\f`, `\n`,
`\r`, `\t`, and `\u00xx` for the control characters without a letter of their
own. `quote` keeps all other characters as they are; `quoteAscii` also spells
every character beyond ASCII as one or two escaped 16-bit units.
-/

namespace MiniTemplate.Text

/-- A character inside quotes. -/
def escapeChar (c : Char) : List Char :=
  if c = '\x22' then ['\\', '\x22']
  else if c = '\\' then ['\\', '\\']
  else if c = '\x08' then ['\\', 'b']
  else if c = '\x0c' then ['\\', 'f']
  else if c = '\n' then ['\\', 'n']
  else if c = '\r' then ['\\', 'r']
  else if c = '\t' then ['\\', 't']
  else if c.toNat < 0x20 then '\\' :: 'u' :: hexUnit c.toNat
  else [c]

/-- The characters of a text, escaped. -/
def escape (cs : List Char) : List Char := cs.flatMap escapeChar

/-- A text between double quotes, escaped. -/
def quoted (cs : List Char) : List Char := '\x22' :: (escape cs ++ ['\x22'])

/-- A text between double quotes, escaped. -/
def quote (s : String) : String := String.ofList (quoted s.toList)

/-- The 16-bit units of a character. -/
def units (c : Char) : List Nat :=
  let n := c.toNat
  if n < 0x10000 then [n]
  else [0xD800 + (n - 0x10000) / 1024, 0xDC00 + (n - 0x10000) % 1024]

/-- A character inside quotes, in ASCII. -/
def escapeAscii (c : Char) : List Char :=
  if c.toNat < 0x80 then escapeChar c
  else (units c).flatMap fun u => '\\' :: 'u' :: hexUnit u

/-- A text between double quotes, in ASCII. -/
def quoteAscii (s : String) : String :=
  String.ofList ('\x22' :: (s.toList.flatMap escapeAscii ++ ['\x22']))

end MiniTemplate.Text
