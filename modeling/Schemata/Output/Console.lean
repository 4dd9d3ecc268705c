import Schemata.Output.Format

/-!
# What a command prints

Every function gives the text that a message adds to the standard output. Status lines are for
people: other formats print data only. Quiet output keeps warnings, errors and data, and details
are printed on demand.
-/

namespace Schemata

inductive Style where
  | bold
  | dimmed
  | red
  | green
  | yellow
  | blue
  | redBold
deriving DecidableEq, Repr

namespace Style

def start : Style → String
  | bold => "\x1b[1m"
  | dimmed => "\x1b[2m"
  | red => "\x1b[31m"
  | green => "\x1b[32m"
  | yellow => "\x1b[33m"
  | blue => "\x1b[34m"
  | redBold => "\x1b[1;31m"

def stop : String := "\x1b[0m"

/-- The text with a style begun anew behind every stop. -/
def resumed (start : List Char) : List Char → List Char
  | [] => []
  | '\x1b' :: '[' :: '0' :: 'm' :: rest =>
    '\x1b' :: '[' :: '0' :: 'm' :: (start ++ resumed start rest)
  | c :: rest => c :: resumed start rest

def paint (s : Style) (text : String) : String :=
  s.start ++ String.ofList (resumed s.start.toList text.toList) ++ stop

end Style

structure Console where
  format : OutputFormat
  color : Bool
  quiet : Bool
  /-- How often details were asked for. -/
  verbosity : Nat
deriving DecidableEq, Repr

namespace Console

def line (text : String) : String := text ++ "\n"

def isHuman (c : Console) : Bool := c.format.isHuman

def painted (c : Console) (s : Style) (text : String) : String :=
  if c.color then s.paint text else text

def human (c : Console) (text : String) : String := if c.isHuman then line text else ""

/-- A message that quiet output leaves out. -/
def chatter (c : Console) (text : String) : String := if c.quiet then "" else c.human text

def step (c : Console) (message : String) : String := c.chatter (c.painted .bold message)

def info (c : Console) (message : String) : String :=
  c.chatter (if c.color then Style.blue.paint "ℹ" ++ " " ++ message else "INFO: " ++ message)

def success (c : Console) (message : String) : String := c.chatter (c.painted .green message)

def warning (c : Console) (message : String) : String := c.human (c.painted .yellow message)

def error (c : Console) (message : String) : String := c.human (c.painted .red message)

def debug (c : Console) (message : String) : String :=
  if c.verbosity > 0 then
    c.human (c.painted .dimmed "DEBUG:" ++ " " ++ c.painted .dimmed message)
  else ""

/-- Data, which ends its line in every format. -/
def data (c : Console) (t : Tree) : String :=
  let text := c.format.render t
  if text.endsWith "\n" then text else line text

end Console

end Schemata
