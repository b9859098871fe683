import HookWeave.Text.CodePoints
import HookWeave.Text.Hex

/-!
# Quoted strings

A string between double quotes, with escapes for the quote, the backslash and every character
that would not show as a glyph of its own.
-/

namespace HookWeave.Text

/-- A code point between braces, the escape of last resort. -/
def escapeCodePoint (c : Char) : String :=
  "\\u\x7b" ++ hex c.toNat ++ "\x7d"

/-- How a character is written between double quotes. -/
def escape (c : Char) : String :=
  if c = '"' then "\\\""
  else if c = '\\' then "\\\\"
  else if c = '\n' then "\\n"
  else if c = '\r' then "\\r"
  else if c = '\t' then "\\t"
  else if c.toNat = 0 then "\\0"
  else if 32 ≤ c.toNat && c.toNat < 127 then c.toString
  else if showsGlyph c.toNat then c.toString
  else escapeCodePoint c

/-- A string in double quotes. -/
def quoted (s : String) : String :=
  "\"" ++ s.foldl (fun acc c => acc ++ escape c) "" ++ "\""

end HookWeave.Text
