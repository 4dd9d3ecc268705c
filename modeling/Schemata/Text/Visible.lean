import Schemata.Text.Unprintable

/-!
# Quoting with every character visible

Messages show a text between quotes: what has no glyph of its own is spelled by its code point.
-/

namespace Schemata

def hexText (n : Nat) : String := String.ofList (Nat.toDigits 16 n)

def visibleChar (c : Char) : String :=
  if c = '"' then "\\\""
  else if c = '\\' then "\\\\"
  else if c = '\n' then "\\n"
  else if c = '\r' then "\\r"
  else if c = '\t' then "\\t"
  else if c.toNat = 0 then "\\0"
  else if isUnprintable c then "\\u\x7b" ++ hexText c.toNat ++ "\x7d"
  else c.toString

def visible (s : String) : String :=
  "\"" ++ String.join (s.toList.map visibleChar) ++ "\""

end Schemata
