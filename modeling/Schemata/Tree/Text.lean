import Schemata.Tree.Basic

/-!
# Text of trees

Two layouts of one notation: `Tree.compact` has no white space at all, and `Tree.indented` puts
each member on a line of its own, two spaces deeper than its parent.
-/

namespace Schemata

def hexDigit (n : Nat) : Char := (Nat.digitChar n)

/-- A quoted character: the quote, the backslash and the controls are escaped, nothing else is. -/
def escapedChar (c : Char) : List Char :=
  if c = '"' then ['\\', '"']
  else if c = '\\' then ['\\', '\\']
  else if c = '\n' then ['\\', 'n']
  else if c = '\r' then ['\\', 'r']
  else if c = '\t' then ['\\', 't']
  else if c.toNat = 8 then ['\\', 'b']
  else if c.toNat = 12 then ['\\', 'f']
  else if c.toNat < 32 then
    ['\\', 'u', '0', '0', hexDigit (c.toNat / 16), hexDigit (c.toNat % 16)]
  else [c]

def quoted (s : String) : String :=
  "\"" ++ String.ofList (s.toList.flatMap escapedChar) ++ "\""

namespace Tree

mutual
def compact : Tree → String
  | null => "null"
  | bool b => if b then "true" else "false"
  | number n => n.text .tree
  | string s => quoted s
  | list ts => "[" ++ ",".intercalate (compactItems ts) ++ "]"
  | mapping es => "\x7b" ++ ",".intercalate (compactEntries es) ++ "\x7d"
termination_by structural t => t

def compactItems : List Tree → List String
  | [] => []
  | t :: ts => t.compact :: compactItems ts
termination_by structural ts => ts

def compactEntries : List (String × Tree) → List String
  | [] => []
  | (k, t) :: es => (quoted k ++ ":" ++ t.compact) :: compactEntries es
termination_by structural es => es
end

def margin (depth : Nat) : String := String.ofList (List.replicate (2 * depth) ' ')

/-- Members between brackets, one a line; an empty collection stays on its line. -/
def bracketed (opening closing : String) (depth : Nat) (members : List String) : String :=
  if members.isEmpty then opening ++ closing
  else
    opening ++ "\n" ++ ",\n".intercalate (members.map (margin (depth + 1) ++ ·)) ++ "\n"
      ++ margin depth ++ closing

mutual
def indentedAt : Tree → Nat → String
  | null, _ => "null"
  | bool b, _ => if b then "true" else "false"
  | number n, _ => n.text .tree
  | string s, _ => quoted s
  | list ts, depth => bracketed "[" "]" depth (indentedItems ts (depth + 1))
  | mapping es, depth => bracketed "\x7b" "\x7d" depth (indentedEntries es (depth + 1))
termination_by structural t => t

def indentedItems : List Tree → Nat → List String
  | [], _ => []
  | t :: ts, depth => t.indentedAt depth :: indentedItems ts depth
termination_by structural ts => ts

def indentedEntries : List (String × Tree) → Nat → List String
  | [], _ => []
  | (k, t) :: es, depth => (quoted k ++ ": " ++ t.indentedAt depth) :: indentedEntries es depth
termination_by structural es => es
end

def indented (t : Tree) : String := t.indentedAt 0

end Tree

end Schemata
