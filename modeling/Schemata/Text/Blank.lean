import Schemata.Text.CodePoints

/-!
# White space

The characters with the Unicode property White_Space, and the words that they separate.
-/

namespace Schemata

def blank : CodePoints := [
  (0x9, 0xD), (0x20, 0x20), (0x85, 0x85), (0xA0, 0xA0), (0x1680, 0x1680), (0x2000, 0x200A),
  (0x2028, 0x2029), (0x202F, 0x202F), (0x205F, 0x205F), (0x3000, 0x3000)]

def isBlank (c : Char) : Bool := blank.contains c

def words (s : List Char) : List (List Char) :=
  go s []
where
  /-- `current` is the word under way, last character first. -/
  go : List Char → List Char → List (List Char)
    | [], current => if current.isEmpty then [] else [current.reverse]
    | c :: rest, current =>
      if isBlank c then
        if current.isEmpty then go rest [] else current.reverse :: go rest []
      else go rest (c :: current)

end Schemata
