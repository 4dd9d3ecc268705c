/-!
# Places and faults in a YAML text

A `Mark` counts characters, lines and columns from zero. A `Fault` says what was found wrong while
the text was cut into tokens or events, where, and what was being read at the time. Faults at the
very first character are reported without a place, and the place of what was being read is left out
where it is the place of the fault.
-/

namespace Schemata.Yaml

structure Mark where
  index : Nat
  line : Nat
  column : Nat
deriving DecidableEq, Repr, Inhabited

def Mark.start : Mark := ⟨0, 0, 0⟩

def Mark.isStart (m : Mark) : Bool := m.line = 0 && m.column = 0

def Mark.text (m : Mark) : String :=
  "line " ++ toString (m.line + 1) ++ " column " ++ toString (m.column + 1)

inductive Activity where
  | simpleKey
  | nextToken
  | directive
  | versionDirective
  | tagDirective
  | tagDirectiveStart
  | tagDirectiveHandle
  | tagDirectivePattern
  | anchor
  | alias
  | tag
  | tagPattern
  | blockScalar
  | quotedScalar
  | quotedEscape
  | plainScalar
  | node
  | blockNode
  | flowNode
  | blockCollection
  | blockMapping
  | flowSequence
  | flowMapping
deriving DecidableEq, Repr

def Activity.text : Activity → String
  | simpleKey => "while scanning a simple key"
  | nextToken => "while scanning for the next token"
  | directive => "while scanning a directive"
  | versionDirective => "while scanning a %YAML directive"
  | tagDirective => "while scanning a %TAG directive"
  | tagDirectiveStart => "while scanning a tag directive"
  | tagDirectiveHandle => "while parsing a tag directive"
  | tagDirectivePattern => "while parsing a %TAG directive"
  | anchor => "while scanning an anchor"
  | .alias => "while scanning an alias"
  | tag => "while scanning a tag"
  | tagPattern => "while parsing a tag"
  | blockScalar => "while scanning a block scalar"
  | quotedScalar => "while scanning a quoted scalar"
  | quotedEscape => "while parsing a quoted scalar"
  | plainScalar => "while scanning a plain scalar"
  | node => "while parsing a node"
  | blockNode => "while parsing a block node"
  | flowNode => "while parsing a flow node"
  | blockCollection => "while parsing a block collection"
  | blockMapping => "while parsing a block mapping"
  | flowSequence => "while parsing a flow sequence"
  | flowMapping => "while parsing a flow mapping"

inductive Problem where
  | missingColon
  | strayCharacter
  | entriesNotAllowed
  | keysNotAllowed
  | valuesNotAllowed
  | unknownDirective
  | missingLineEnd
  | missingDirectiveName
  | directiveNameCharacter
  | missingVersionPoint
  | longVersion
  | missingVersion
  | missingBlank
  | missingBlankOrLineEnd
  | missingBang
  | missingName
  | missingClosingAngle
  | missingTagName
  | missingEscapedOctet
  | leadingOctet
  | trailingOctet
  | zeroIndentation
  | tabInIndentation
  | documentIndicator
  | endOfStream
  | unknownEscape
  | missingHexDigit
  | invalidCodePoint
  | colonInFlow
  | tabBeforePlain
  | missingDocumentStart
  | duplicateVersion
  | incompatibleVersion
  | duplicateTagDirective
  | undefinedTagHandle
  | missingContent
  | missingDash
  | missingKey
  | missingCommaOrBracket
  | missingCommaOrBrace
deriving DecidableEq, Repr

def Problem.text : Problem → String
  | missingColon => "could not find expected ':'"
  | strayCharacter => "found character that cannot start any token"
  | entriesNotAllowed => "block sequence entries are not allowed in this context"
  | keysNotAllowed => "mapping keys are not allowed in this context"
  | valuesNotAllowed => "mapping values are not allowed in this context"
  | unknownDirective => "found unknown directive name"
  | missingLineEnd => "did not find expected comment or line break"
  | missingDirectiveName => "could not find expected directive name"
  | directiveNameCharacter => "found unexpected non-alphabetical character"
  | missingVersionPoint => "did not find expected digit or '.' character"
  | longVersion => "found extremely long version number"
  | missingVersion => "did not find expected version number"
  | missingBlank => "did not find expected whitespace"
  | missingBlankOrLineEnd => "did not find expected whitespace or line break"
  | missingBang => "did not find expected '!'"
  | missingName => "did not find expected alphabetic or numeric character"
  | missingClosingAngle => "did not find the expected '>'"
  | missingTagName => "did not find expected tag URI"
  | missingEscapedOctet => "did not find URI escaped octet"
  | leadingOctet => "found an incorrect leading UTF-8 octet"
  | trailingOctet => "found an incorrect trailing UTF-8 octet"
  | zeroIndentation => "found an indentation indicator equal to 0"
  | tabInIndentation => "found a tab character where an indentation space is expected"
  | documentIndicator => "found unexpected document indicator"
  | endOfStream => "found unexpected end of stream"
  | unknownEscape => "found unknown escape character"
  | missingHexDigit => "did not find expected hexadecimal number"
  | invalidCodePoint => "found invalid Unicode character escape code"
  | colonInFlow => "found unexpected ':'"
  | tabBeforePlain => "found a tab character that violates indentation"
  | missingDocumentStart => "did not find expected <document start>"
  | duplicateVersion => "found duplicate %YAML directive"
  | incompatibleVersion => "found incompatible YAML document"
  | duplicateTagDirective => "found duplicate %TAG directive"
  | undefinedTagHandle => "found undefined tag handle"
  | missingContent => "did not find expected node content"
  | missingDash => "did not find expected '-' indicator"
  | missingKey => "did not find expected key"
  | missingCommaOrBracket => "did not find expected ',' or ']'"
  | missingCommaOrBrace => "did not find expected ',' or '\x7d'"

inductive Fault where
  | malformed (problem : Problem) (mark : Mark) (during : Option (Activity × Mark))
  /-- A character that no stream may hold, after so many bytes. -/
  | forbiddenCharacter (offset : Nat)
deriving DecidableEq, Repr

def Fault.message : Fault → String
  | malformed problem mark during =>
    problem.text ++ (if mark.isStart then "" else " at " ++ mark.text) ++
      match during with
      | none => ""
      | some (activity, since) =>
        ", " ++ activity.text ++
          if since.isStart || (since.line = mark.line && since.column = mark.column) then ""
          else " at " ++ since.text
  | forbiddenCharacter offset =>
    "control characters are not allowed" ++
      if offset = 0 then "" else " at position " ++ toString offset

end Schemata.Yaml
