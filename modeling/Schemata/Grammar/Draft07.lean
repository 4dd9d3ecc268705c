import Schemata.Tree.Basic

/-!
# The grammar of schema documents

The schema of Draft 7 schemas, which every schema document has to satisfy. It is written in the
language that it describes.
-/

namespace Schemata.Grammar.Draft07

def typed (name : String) : Tree := .mapping [("type", .string name)]

def refer (raw : String) : Tree := .mapping [("$ref", .string raw)]

def whole : Tree := refer "#"

def named (name : String) : Tree := refer ("#/definitions/" ++ name)

def strings (ss : List String) : Tree := .list (ss.map .string)

def definitions : Entries := [
  ("schemaArray", .mapping [("type", .string "array"), ("minItems", .int 1), ("items", whole)]),
  ("nonNegativeInteger", .mapping [("type", .string "integer"), ("minimum", .int 0)]),
  ("nonNegativeIntegerDefault0", .mapping [
    ("allOf", .list [named "nonNegativeInteger", .mapping [("default", .int 0)]])]),
  ("simpleTypes", .mapping [
    ("enum", strings ["array", "boolean", "integer", "null", "number", "object", "string"])]),
  ("stringArray", .mapping [("type", .string "array"), ("items", typed "string"),
    ("uniqueItems", .bool true), ("default", .list [])])]

def properties : Entries := [
  ("$id", .mapping [("type", .string "string"), ("format", .string "uri-reference")]),
  ("$schema", .mapping [("type", .string "string"), ("format", .string "uri")]),
  ("$ref", .mapping [("type", .string "string"), ("format", .string "uri-reference")]),
  ("$comment", typed "string"), ("title", typed "string"), ("description", typed "string"),
  ("default", .bool true),
  ("readOnly", .mapping [("type", .string "boolean"), ("default", .bool false)]),
  ("writeOnly", .mapping [("type", .string "boolean"), ("default", .bool false)]),
  ("examples", .mapping [("type", .string "array"), ("items", .bool true)]),
  ("multipleOf", .mapping [("type", .string "number"), ("exclusiveMinimum", .int 0)]),
  ("maximum", typed "number"), ("exclusiveMaximum", typed "number"), ("minimum", typed "number"),
  ("exclusiveMinimum", typed "number"), ("maxLength", named "nonNegativeInteger"),
  ("minLength", named "nonNegativeIntegerDefault0"),
  ("pattern", .mapping [("type", .string "string"), ("format", .string "regex")]),
  ("additionalItems", whole),
  ("items", .mapping [("anyOf", .list [whole, named "schemaArray"]), ("default", .bool true)]),
  ("maxItems", named "nonNegativeInteger"), ("minItems", named "nonNegativeIntegerDefault0"),
  ("uniqueItems", .mapping [("type", .string "boolean"), ("default", .bool false)]),
  ("contains", whole), ("maxProperties", named "nonNegativeInteger"),
  ("minProperties", named "nonNegativeIntegerDefault0"), ("required", named "stringArray"),
  ("additionalProperties", whole),
  ("definitions", .mapping [("type", .string "object"), ("additionalProperties", whole),
    ("default", .mapping [])]),
  ("properties", .mapping [("type", .string "object"), ("additionalProperties", whole),
    ("default", .mapping [])]),
  ("patternProperties", .mapping [("type", .string "object"), ("additionalProperties", whole),
    ("propertyNames", .mapping [("format", .string "regex")]), ("default", .mapping [])]),
  ("dependencies", .mapping [("type", .string "object"),
    ("additionalProperties", .mapping [("anyOf", .list [whole, named "stringArray"])])]),
  ("propertyNames", whole), ("const", .bool true),
  ("enum", .mapping [("type", .string "array"), ("items", .bool true)]),
  ("type", .mapping [("anyOf", .list [named "simpleTypes", .mapping [("type", .string "array"),
    ("items", named "simpleTypes"), ("minItems", .int 1), ("uniqueItems", .bool true)]])]),
  ("format", typed "string"), ("contentMediaType", typed "string"),
  ("contentEncoding", typed "string"), ("if", whole), ("then", whole), ("else", whole),
  ("allOf", named "schemaArray"), ("anyOf", named "schemaArray"), ("oneOf", named "schemaArray"),
  ("not", whole)]

def schema : Tree := .mapping [
  ("$schema", .string "http://json-schema.org/draft-07/schema#"),
  ("$id", .string "http://json-schema.org/draft-07/schema#"),
  ("title", .string "Core schema meta-schema"), ("definitions", .mapping definitions),
  ("type", strings ["object", "boolean"]), ("properties", .mapping properties),
  ("default", .bool true)]

end Schemata.Grammar.Draft07
