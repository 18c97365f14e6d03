import Firmware.Hex
import Firmware.Text.Printable

/-!
# Quoted text

A text in double quotes, as the messages show names and versions: the quote and the backslash are
escaped, line feed, carriage return, tab and NUL have short escapes, and a character without a glyph
of its own is written by its code point.  In paths the single quote is escaped as well.
-/

namespace Firmware.Text

/-- One character inside quotes. -/
def quotedChar (c : Char) : String :=
  if c = '"' then "\\\""
  else if c = '\\' then "\\\\"
  else if c = '\n' then "\\n"
  else if c = '\r' then "\\r"
  else if c = '\t' then "\\t"
  else if c.toNat = 0 then "\\0"
  else if isPrintable c then String.singleton c
  else "\\u\x7b" ++ Hex.ofNat c.toNat ++ "\x7d"

/-- The text in double quotes. -/
def quoted (s : String) : String :=
  "\"" ++ String.join (s.toList.map quotedChar) ++ "\""

/-- A path or the name of an environment variable in double quotes, in which single quotes are
escaped too. -/
def quotedPath (s : String) : String :=
  "\"" ++ String.join (s.toList.map fun c => if c = '\'' then "\\'" else quotedChar c) ++ "\""

end Firmware.Text
