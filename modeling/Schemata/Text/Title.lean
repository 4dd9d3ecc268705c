import Schemata.Text.Alphabetic
import Schemata.Text.Blank
import Schemata.Text.LetterCase

/-!
# Names for readers

Capitals at the beginning of a name or of each of its words, texts on one line, and summaries. Words
for `titleCase` are runs of letters; for `oneLine` they are what white space separates.
-/

namespace Schemata

def capitalized (s : String) : String :=
  match s.toList with
  | [] => ""
  | c :: cs => String.ofList (upperCase c ++ cs.flatMap lowerCase)

/-- Letters at the beginning of a run of letters in upper case, the others in lower case. -/
def titleChars (inWord : Bool) : List Char → List Char
  | [] => []
  | c :: cs =>
    if isAlphabetic c then (if inWord then lowerCase c else upperCase c) ++ titleChars true cs
    else c :: titleChars false cs

def titleCase (s : String) : String := String.ofList (titleChars false s.toList)

def oneLine (s : String) : List Char := [' '].intercalate (words s.toList)

/-- The first `limit` characters of a text on one line, with three points when cut short. -/
def summary (s : String) (limit : Nat) : String :=
  let line := oneLine s
  if line.length ≤ limit then String.ofList line
  else String.ofList (line.take limit ++ ['.', '.', '.'])

end Schemata
