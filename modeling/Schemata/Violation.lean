import Schemata.Tree.Path

/-!
# Violations

A violation is a place in a document and what is wrong there. Reports list violations in the order
of their places, then of their messages, each once.
-/

namespace Schemata

structure Violation where
  path : TreePath
  message : String
deriving DecidableEq, Repr, Inhabited

namespace Violation

/-- The same violation seen from further up. -/
def under (v : Violation) (base : TreePath) : Violation := { v with path := base ++ v.path }

def compare (a b : Violation) : Ordering :=
  (a.path.compare b.path).then
    (if a.message < b.message then .lt else if a.message = b.message then .eq else .gt)

def le (a b : Violation) : Bool := (a.compare b).isLE

def text (v : Violation) : String := v.path.text ++ ": " ++ v.message

def tree (v : Violation) : Tree :=
  .mapping [("path", .string v.path.text), ("message", .string v.message)]

def dropRepeats : List Violation → List Violation
  | [] => []
  | [v] => [v]
  | v :: w :: rest => if v = w then dropRepeats (w :: rest) else v :: dropRepeats (w :: rest)

/-- The order of reports. -/
def canonical (vs : List Violation) : List Violation := dropRepeats (vs.mergeSort le)

end Violation

end Schemata
