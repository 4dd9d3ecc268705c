import Schemata.Yaml.Stream
import Schemata.Yaml.Token

/-!
# Directives, anchors and tags

The tokens that are made of names. Every reader here starts at the indicator of its token and gives
the token together with the stream behind it.
-/

namespace Schemata.Yaml

namespace Token

def readDirectiveName (s : Stream) (since : Mark) : Except Fault (List Char × Stream) :=
  let (name, after) := s.takeWhile isNameChar
  if name.isEmpty then after.fail .missingDirectiveName .directive since
  else if !after.isBlankBreakOrEndAt 0 then after.fail .directiveNameCharacter .directive since
  else .ok (name, after)

def readVersionPart (s : Stream) (since : Mark) : Except Fault (Nat × Stream) :=
  let (digits, after) := s.takeWhile Char.isDigit
  if digits.length > 9 then (s.skip 9).fail .longVersion .versionDirective since
  else if digits.isEmpty then after.fail .missingVersion .versionDirective since
  else .ok (digits.foldl (fun n d => n * 10 + (d.toNat - '0'.toNat)) 0, after)

def hexDigit? (c : Char) : Option Nat :=
  if c.isDigit then some (c.toNat - '0'.toNat)
  else if 'a' ≤ c ∧ c ≤ 'f' then some (c.toNat - 'a'.toNat + 10)
  else if 'A' ≤ c ∧ c ≤ 'F' then some (c.toNat - 'A'.toNat + 10)
  else none

def readOctet (s : Stream) (activity : Activity) (since : Mark) : Except Fault (Nat × Stream) :=
  match s.startsWith '%', (s.peekAt 1).bind hexDigit?, (s.peekAt 2).bind hexDigit? with
  | true, some a, some b => .ok (a * 16 + b, s.skip 3)
  | _, _, _ => s.fail .missingEscapedOctet activity since

def readTrailing (activity : Activity) (since : Mark) :
    Nat → Nat → Stream → Except Fault (Nat × Stream)
  | 0, code, s => .ok (code, s)
  | n + 1, code, s => do
    let (octet, after) ← readOctet s activity since
    if octet / 64 ≠ 2 then s.fail .trailingOctet activity since
    else readTrailing activity since n (code * 64 + octet % 64) after

def readEscapedChar (s : Stream) (activity : Activity) (since : Mark) :
    Except Fault (Char × Stream) := do
  let (octet, after) ← readOctet s activity since
  let start? : Option (Nat × Nat) :=
    if octet < 0x80 then some (0, octet)
    else if octet / 32 = 6 then some (1, octet % 32)
    else if octet / 16 = 14 then some (2, octet % 16)
    else if octet / 8 = 30 then some (3, octet % 8)
    else none
  match start? with
  | none => s.fail .leadingOctet activity since
  | some (trailing, code) =>
    let (code, after) ← readTrailing activity since trailing code after
    return (Char.ofNat code, after)

def isTagChar (verbatim : Bool) (c : Char) : Bool :=
  isNameChar c || ";/?:@&=+$.%!~*'()".toList.contains c || (verbatim && ",[]".toList.contains c)

def readTagChars (verbatim : Bool) (activity : Activity) (since : Mark) :
    Nat → Stream → List Char → Except Fault (List Char × Stream)
  | 0, s, taken => .ok (taken.reverse, s)
  | fuel + 1, s, taken =>
    match s.peek with
    | none => .ok (taken.reverse, s)
    | some c =>
      if c = '%' then do
        let (x, after) ← readEscapedChar s activity since
        readTagChars verbatim activity since fuel after (x :: taken)
      else if isTagChar verbatim c then
        readTagChars verbatim activity since fuel s.next (c :: taken)
      else .ok (taken.reverse, s)

/-- Reads the body of a tag; `head` is a handle that turned out to be its beginning, of which the
first character does not count. -/
def readTagBody (s : Stream) (verbatim : Bool) (activity : Activity) (head : List Char)
    (since : Mark) : Except Fault (String × Stream) := do
  let (body, after) ← readTagChars verbatim activity since (s.rest.length + 1) s []
  if head.isEmpty && body.isEmpty then after.fail .missingTagName activity since
  else return (String.ofList (head.drop 1 ++ body), after)

/-- Reads `!`, `!name!`, or the `!name` that a tag may begin with. -/
def readTagHandle (s : Stream) (inDirective : Bool) (since : Mark) :
    Except Fault (List Char × Stream) :=
  if !s.startsWith '!' then
    s.fail .missingBang (if inDirective then .tagDirectiveStart else .tag) since
  else
    let (name, after) := s.next.takeWhile isNameChar
    if after.startsWith '!' then .ok ('!' :: name ++ ['!'], after.next)
    else if inDirective && !name.isEmpty then after.fail .missingBang .tagDirectiveHandle since
    else .ok ('!' :: name, after)

def readDirective (s : Stream) : Except Fault (Token × Stream) := do
  let since := s.mark
  let (name, after) ← readDirectiveName s.next since
  let (kind, after) ←
    if name = "YAML".toList then do
      let (major, after) ← readVersionPart (after.skipWhile isBlankChar) since
      if !after.startsWith '.' then after.fail .missingVersionPoint .versionDirective since
      let (minor, after) ← readVersionPart after.next since
      pure (TokenKind.versionDirective major minor, after)
    else if name = "TAG".toList then do
      let (handle, after) ← readTagHandle (after.skipWhile isBlankChar) true since
      if !after.test isBlankChar then after.fail .missingBlank .tagDirective since
      let (tagPrefix, after) ←
        readTagBody (after.skipWhile isBlankChar) true .tagDirectivePattern [] since
      if !after.isBlankBreakOrEndAt 0 then after.fail .missingBlankOrLineEnd .tagDirective since
      pure (TokenKind.tagDirective (String.ofList handle) tagPrefix, after)
    else after.fail .unknownDirective .directive since
  let stop := after.mark
  let after := (after.skipWhile isBlankChar).skipComment
  if !after.isBreakOrEndAt 0 then after.fail .missingLineEnd .directive since
  return (⟨kind, since, stop⟩, after.nextLine.2)

/-- An anchor or an alias: a name that a blank, the end or one of a few indicators follows. -/
def readAnchor (s : Stream) (isAlias : Bool) : Except Fault (Token × Stream) :=
  let since := s.mark
  let (name, after) := s.next.takeWhile isNameChar
  let ended := after.isBlankBreakOrEndAt 0 || after.test ("?:,]\x7d%@\x60".toList.contains ·)
  if name.isEmpty || !ended then
    after.fail .missingName (if isAlias then .alias else .anchor) since
  else
    let name := String.ofList name
    .ok (⟨if isAlias then .alias name else .anchor name, since, after.mark⟩, after)

def readTag (s : Stream) (inFlow : Bool) : Except Fault (Token × Stream) := do
  let since := s.mark
  let (handle, suffix, after) ←
    if s.testAt 1 (· = '<') then do
      let (suffix, after) ← readTagBody (s.skip 2) true .tagPattern [] since
      if !after.startsWith '>' then after.fail .missingClosingAngle .tag since
      pure ("", suffix, after.next)
    else do
      let (handle, after) ← readTagHandle s false since
      if handle.length > 1 && handle.getLast? = some '!' then
        let (suffix, after) ← readTagBody after false .tagPattern [] since
        pure (String.ofList handle, suffix, after)
      else
        let (suffix, after) ← readTagBody after false .tagPattern handle since
        pure (if suffix.isEmpty then ("", "!", after) else ("!", suffix, after))
  if !(inFlow && after.startsWith ',') && !after.isBlankBreakOrEndAt 0 then
    after.fail .missingBlankOrLineEnd .tag since
  return (⟨.tag handle suffix, since, after.mark⟩, after)

end Token

end Schemata.Yaml
