import Schemata.Grammar.Breach
import Schemata.Grammar.Draft07
import Schemata.Grammar.StringFormat
import Schemata.Json.Reader
import Schemata.Validation.Positions

/-!
# Holding trees against a grammar

A grammar is a schema, itself a tree, whose keywords say what the trees of the grammar look like.
The keywords of a schema are looked at one by one, and a reference to another part of the grammar
stands for that part alone. `Grammar.compile` refuses a tree that is no schema.
-/

namespace Schemata

structure Finding where
  path : TreePath
  breach : Breach
  value : Tree
deriving DecidableEq, Repr

namespace Finding

def message (f : Finding) : String := f.breach.message f.value

def violation (f : Finding) : Violation := ⟨f.path, f.message⟩

def under (f : Finding) (step : Step) : Finding := { f with path := step :: f.path }

end Finding

namespace Tree

def sameNumber (a b : Number) : Bool := a.compare? b = some .eq

mutual
/-- Equal values: numbers by their value, mappings whatever the order of their entries. -/
def alike : Tree → Tree → Bool
  | .null, .null => true
  | .bool a, .bool b => a = b
  | .number a, .number b => sameNumber a b
  | .string a, .string b => a = b
  | .list a, .list b => alikeItems a b
  | .mapping a, .mapping b => a.length = b.length && alikeEntries a b
  | _, _ => false
termination_by structural a => a

def alikeItems : List Tree → List Tree → Bool
  | [], [] => true
  | a :: as, b :: bs => alike a b && alikeItems as bs
  | _, _ => false
termination_by structural as => as

def alikeEntries : List (String × Tree) → List (String × Tree) → Bool
  | [], _ => true
  | (k, v) :: es, others => (Entries.get? others k).any (alike v) && alikeEntries es others
termination_by structural es => es
end

def hasRepeats : List Tree → Bool
  | [] => false
  | t :: ts => ts.any (alike t) || hasRepeats ts

def typeNames : List String :=
  ["array", "boolean", "integer", "null", "number", "object", "string"]

def hasType (t : Tree) (name : String) : Bool :=
  match t with
  | .null => name = "null"
  | .bool _ => name = "boolean"
  | .number n => name = "number" || (name = "integer" && n.isIntegral)
  | .string _ => name = "string"
  | .list _ => name = "array"
  | .mapping _ => name = "object"

end Tree

namespace Grammar

def number? : Tree → Option Number
  | .number n => some n
  | _ => none

/-- A count: an integral number that is not negative. -/
def count? (t : Tree) : Option Nat := do
  let n ← number? t
  let (a, b) ← n.fraction?
  if a ≥ 0 && n.isIntegral then some (a.toNat / b) else none

/-- The first number is a multiple of the second, both taken as floats. An integral factor has to
divide exactly. Of other factors the rounded quotient counts as whole if its fractional part, which
has the sign of the quotient, is less than the spacing of floats at one; a quotient that is too
large for a float has to be whole. -/
def isMultiple (n factor : Number) : Bool :=
  match (Number.float n.asFloat).fraction?, (Number.float factor.asFloat).fraction? with
  | some (a, b), some (c, d) =>
    if c % d = 0 then c ≠ 0 && a % b = 0 && (a / b) % (c / d) = 0
    else
      match (Number.float (.nearest (a * c < 0) (a.natAbs * d) (b * c.natAbs))).fraction? with
      | some (q, r) => q.tmod r * Int.pow 2 52 < r
      | none => a * d % (b * c) = 0
  | _, _ => true

/-- A schema and the grammar that its references start from. -/
structure Place where
  root : Tree
  schema : Tree

def fragmentText (cs : List Char) : String := String.ofList (decode cs)
where
  /-- Restores the characters that stand as percent escapes. -/
  decode : List Char → List Char
    | '%' :: a :: b :: rest =>
      if Identifier.isHex a && Identifier.isHex b && Pattern.hexValue [a] < 8 then
        Char.ofNat (Pattern.hexValue [a, b]) :: decode rest
      else '%' :: decode (a :: b :: rest)
    | c :: rest => c :: decode rest
    | [] => []

/-- The schema inside a schema whose identifier is a mark. -/
def marked? (mark : String) (t : Tree) : Option Tree :=
  match t with
  | .mapping es =>
    if (Entries.get? es "$id").bind Tree.string? = some ("#" ++ mark) then some t
    else (Position.all es).attach.findSome? fun p => marked? mark p.1.2
  | _ => none
termination_by t.size
decreasing_by exact Position.size_lt p.2

/-- What a reference in a grammar stands for. -/
def target? (root : Tree) (raw : String) : Option Place :=
  let base := raw.toList.takeWhile (· ≠ '#')
  let fragment := fragmentText ((raw.toList.drop base.length).drop 1)
  let ownBase :=
    match root.get? "$id" with
    | some (.string id) => id.toList.takeWhile (· ≠ '#')
    | _ => []
  let home :=
    if base.isEmpty || base = ownBase then some root
    else if String.ofList base = "http://json-schema.org/draft-07/schema" then some Draft07.schema
    else none
  home.bind fun root =>
    if fragment.isEmpty || fragment.startsWith "/" then
      (Pointer.resolve root fragment).toOption.map (Place.mk root)
    else (marked? fragment root).map (Place.mk root)

/-- How the values of a keyword are held against the schemas in it. -/
abbrev Inspect := Tree → Tree → List Finding

def demand (holds : Bool) (b : Breach) (t : Tree) : List Finding :=
  if holds then [] else [⟨[], b, t⟩]

def limit (v t : Tree) (holds : Ordering → Bool) (b : Number → Breach) : List Finding :=
  match number? v, number? t with
  | some n, some m => demand ((m.compare? n).all holds) (b n) t
  | _, _ => []

def sizeLimit (v : Tree) (size : Option Nat) (holds : Nat → Nat → Bool) (b : Nat → Breach)
    (t : Tree) : List Finding :=
  match count? v, size with
  | some n, some m => demand (holds m n) (b n) t
  | _, _ => []

def textSize? (t : Tree) : Option Nat := t.string?.map (·.toList.length)

def listSize? (t : Tree) : Option Nat := t.items?.map List.length

def mappingSize? (t : Tree) : Option Nat := t.entries?.map List.length

def stringsOf (t : Tree) : List String := (t.items?.getD []).filterMap Tree.string?

def checkType (v t : Tree) : List Finding :=
  match v with
  | .string name => demand (t.hasType name) (.wrongType [name]) t
  | .list _ =>
    let names := stringsOf v
    demand (names.any t.hasType) (.wrongType (Tree.typeNames.filter names.contains)) t
  | _ => []

def checkItems (inspect : Inspect) (schema : Nat → Option Tree) (ts : List Tree) : List Finding :=
  ts.zipIdx.flatMap fun (t, i) =>
    ((schema i).map fun s => (inspect s t).map (·.under (.index i))).getD []

def checkExtraItems (inspect : Inspect) (es : Entries) (v t : Tree) : List Finding :=
  match Entries.get? es "items", t with
  | some (.list schemas), .list ts =>
    match v with
    | .bool false => demand (ts.length ≤ schemas.length) (.extraItems schemas.length) t
    | _ => checkItems inspect (fun i => if i < schemas.length then none else some v) ts
  | _, _ => []

def patternsOf (es : Entries) : Entries :=
  ((Entries.get? es "patternProperties").bind Tree.entries?).getD []

def propertiesOf (es : Entries) : Entries :=
  ((Entries.get? es "properties").bind Tree.entries?).getD []

def isExtra (es : Entries) (name : String) : Bool :=
  (Entries.get? (propertiesOf es) name).isNone
    && !(patternsOf es).any fun p => Pattern.occurs p.1 name

def checkEntry (inspect : Inspect) (schema : Tree) (name : String) (t : Tree) : List Finding :=
  (inspect schema t).map (·.under (.key name))

/-- Entries that the schema does not name. Where it names none at all, the first is shown. -/
def checkExtraEntries (inspect : Inspect) (es : Entries) (v t : Tree) : List Finding :=
  let extra := (t.entries?.getD []).filter fun e => isExtra es e.1
  match v with
  | .bool false =>
    if (Entries.get? es "properties").isSome || (Entries.get? es "patternProperties").isSome then
      demand extra.isEmpty (.extraEntries (extra.map (·.1))) t
    else extra.head?.toList.map fun e => ⟨[], .nothingAllowed, e.2⟩
  | _ => extra.flatMap fun e => checkEntry inspect v e.1 e.2

def checkMissing (names : List String) (t : Tree) : List Finding :=
  match t with
  | .mapping es =>
    names.flatMap fun n => demand (Entries.get? es n).isSome (.missing n) t
  | _ => []

def checkDependency (inspect : Inspect) (t : Tree) (name : String) (v : Tree) : List Finding :=
  if (t.get? name).isNone then []
  else
    match v with
    | .list _ => checkMissing (stringsOf v) t
    | _ => inspect v t

/-- Names are held against a schema like values; what is wrong with one is said about it where the
mapping stands. -/
def checkNames (inspect : Inspect) (v t : Tree) : List Finding :=
  match t, v with
  | .mapping es, .bool false => demand es.isEmpty .nothingAllowed t
  | .mapping es, _ =>
    es.flatMap fun e => (inspect v (.string e.1)).map fun f => { f with path := [] }
  | _, _ => []

def checkOneOf (inspect : Inspect) (schemas : List Tree) (t : Tree) : List Finding :=
  match schemas.countP fun s => (inspect s t).isEmpty with
  | 0 => [⟨[], .noneOfOne, t⟩]
  | 1 => []
  | _ => [⟨[], .severalOfOne, t⟩]

def checkCondition (inspect : Inspect) (es : Entries) (v t : Tree) : List Finding :=
  let branch := if (inspect v t).isEmpty then "then" else "else"
  ((Entries.get? es branch).map (inspect · t)).getD []

def checkText (t : Tree) (check : String → List Finding) : List Finding :=
  (t.string?.map check).getD []

def checkMedia (es : Entries) (name : String) (t : Tree) : List Finding :=
  let isJson (s : String) := (Json.read s).toOption.isSome
  checkText t fun s =>
    match name, (Entries.get? es "contentEncoding").bind Tree.string? with
    | "application/json", none => demand (isJson s) (.badMedia name) t
    | "application/json", some "base64" =>
      match StringFormat.decode64? s.toList with
      | none => demand false (.badEncoding "base64") t
      | some bytes => demand ((String.fromUTF8? ⟨bytes.toArray⟩).any isJson) (.badMedia name) t
    | _, _ => []

/-- What a keyword with the value `v` in the schema `es` finds in a tree. -/
def checkKeyword (inspect : Inspect) (es : Entries) (keyword : String) (v t : Tree) :
    List Finding :=
  match keyword, v with
  | "type", _ => checkType v t
  | "enum", .list options => demand (options.any t.alike) (.notAmong options) t
  | "const", _ => demand (t.alike v) (.notEqual v) t
  | "minimum", _ => limit v t (· ≠ .lt) .belowMinimum
  | "maximum", _ => limit v t (· ≠ .gt) .aboveMaximum
  | "exclusiveMinimum", _ => limit v t (· = .gt) .notAbove
  | "exclusiveMaximum", _ => limit v t (· = .lt) .notBelow
  | "multipleOf", .number n =>
    ((number? t).map fun m => demand (isMultiple m n) (.notMultiple n) t).getD []
  | "minLength", _ => sizeLimit v (textSize? t) (fun m n => n ≤ m) .tooShort t
  | "maxLength", _ => sizeLimit v (textSize? t) (fun m n => m ≤ n) .tooLong t
  | "pattern", .string p => checkText t fun s => demand (Pattern.occurs p s) (.patternMissing p) t
  | "format", .string name =>
    checkText t fun s => demand (StringFormat.admits name s) (.badFormat name) t
  | "contentEncoding", .string "base64" =>
    if (Entries.get? es "contentMediaType").isSome then []
    else
      checkText t fun s =>
        demand (StringFormat.decode64? s.toList).isSome (.badEncoding "base64") t
  | "contentMediaType", .string name => checkMedia es name t
  | "items", .list schemas => checkItems inspect (schemas[·]?) (t.items?.getD [])
  | "items", _ => checkItems inspect (fun _ => some v) (t.items?.getD [])
  | "additionalItems", _ => checkExtraItems inspect es v t
  | "minItems", _ => sizeLimit v (listSize? t) (fun m n => n ≤ m) .tooFewItems t
  | "maxItems", _ => sizeLimit v (listSize? t) (fun m n => m ≤ n) .tooManyItems t
  | "uniqueItems", .bool true => demand (!Tree.hasRepeats (t.items?.getD [])) .repeatedItems t
  | "contains", _ =>
    (t.items?.map fun ts => demand (ts.any fun u => (inspect v u).isEmpty) .noItemFits t).getD []
  | "properties", .mapping ps =>
    ps.flatMap fun p => ((t.get? p.1).map (checkEntry inspect p.2 p.1)).getD []
  | "patternProperties", .mapping ps =>
    ps.flatMap fun p =>
      (t.entries?.getD []).flatMap fun e =>
        if Pattern.occurs p.1 e.1 then checkEntry inspect p.2 e.1 e.2 else []
  | "additionalProperties", _ => checkExtraEntries inspect es v t
  | "propertyNames", _ => checkNames inspect v t
  | "required", _ => checkMissing (stringsOf v) t
  | "dependencies", .mapping ds => ds.flatMap fun d => checkDependency inspect t d.1 d.2
  | "minProperties", _ => sizeLimit v (mappingSize? t) (fun m n => n ≤ m) .tooFewEntries t
  | "maxProperties", _ => sizeLimit v (mappingSize? t) (fun m n => m ≤ n) .tooManyEntries t
  | "allOf", .list schemas => schemas.flatMap (inspect · t)
  | "anyOf", .list schemas => demand (schemas.any fun s => (inspect s t).isEmpty) .noneOfAny t
  | "oneOf", .list schemas => checkOneOf inspect schemas t
  | "not", _ => demand (!(inspect v t).isEmpty) (.forbidden v) t
  | "if", _ => checkCondition inspect es v t
  | _, _ => []

/-- What a schema finds in a tree. `depth` bounds the nesting of schemas, of which a reference is
one step. -/
def inspect : (depth : Nat) → Place → Tree → List Finding
  | 0, _, _ => []
  | depth + 1, p, t =>
    match p.schema with
    | .bool false => [⟨[], .nothingAllowed, t⟩]
    | .mapping es =>
      match Entries.get? es "$ref" with
      | some (.string raw) => ((target? p.root raw).map (inspect depth · t)).getD []
      | _ => es.flatMap fun e => checkKeyword (fun s => inspect depth ⟨p.root, s⟩) es e.1 e.2 t
    | _ => []

/-- No way through a grammar and a tree that meets every pair of their nodes at most once is
longer. -/
def depthFor (root t : Tree) : Nat := (root.size + Draft07.schema.size + 1) * (t.size + 1)

def findings (root t : Tree) : List Finding := inspect (depthFor root t) ⟨root, root⟩ t

end Grammar

/-- The grammar of schema documents: the violations of a tree. -/
def draft07 (t : Tree) : List Violation :=
  (Grammar.findings Grammar.Draft07.schema t).map Finding.violation

inductive GrammarError where
  | malformed (f : Finding)
  | dangling (reference : String)
deriving DecidableEq, Repr

namespace GrammarError

/-- Grammars without an identifier are at home in this scheme. -/
def homeScheme : List Char := "json-schema".toList

def missingText (reference : String) : String :=
  let base := reference.toList.takeWhile (· ≠ '#')
  let fragment := Grammar.fragmentText ((reference.toList.drop base.length).drop 1)
  if !base.isEmpty then
    let (scheme, full) :=
      match Identifier.cutScheme base with
      | (some scheme, _) => (scheme, base)
      | (none, _) => (homeScheme, homeScheme ++ ":///".toList ++ base.dropWhile (· = '/'))
    "Resource '" ++ String.ofList full
      ++ "' is not present in a registry and retrieving it failed: Unknown scheme "
      ++ String.ofList scheme
  else if fragment.startsWith "/" then "Pointer '" ++ fragment ++ "' does not exist"
  else "Anchor '" ++ fragment ++ "' does not exist"

def message (e : GrammarError) : String :=
  "Failed to compile meta-grammar: "
    ++ match e with
      | malformed f => f.message
      | dangling reference => missingText reference

end GrammarError

namespace Grammar

def used (es : Entries) : List Tree :=
  (Position.all es).filterMap fun p =>
    if p.1.head? = some (.key "definitions") || p.1.head? = some (.key "$defs") then none
    else some p.2

/-- The first reference that leads nowhere in the schemas of `todo` and in what they refer to. -/
def dangling? : Nat → List String → List Place → Option String
  | 0, _, _ => none
  | _ + 1, _, [] => none
  | fuel + 1, seen, p :: todo =>
    match p.schema with
    | .mapping es =>
      match Entries.get? es "$ref" with
      | some (.string raw) =>
        if seen.contains raw then dangling? fuel seen todo
        else
          match target? p.root raw with
          | some q => dangling? fuel (raw :: seen) (q :: todo)
          | none => some raw
      | _ => dangling? fuel seen ((used es).map (Place.mk p.root) ++ todo)
    | _ => dangling? fuel seen todo

/-- A grammar that a tree describes: the violations of a tree. -/
def compile (root : Tree) : Except GrammarError (Tree → List Violation) :=
  match findings Draft07.schema root with
  | f :: _ => .error (.malformed f)
  | [] =>
    match dangling? (depthFor root root) [] [⟨root, root⟩] with
    | some raw => .error (.dangling raw)
    | none => .ok fun t => (findings root t).map Finding.violation

end Grammar

end Schemata
