import Schemata.Command.Arguments
import Schemata.Command.Run
import Schemata.File.Disk
import Schemata.File.Path
import Schemata.Grammar.Breach
import Schemata.Grammar.Check
import Schemata.Grammar.Draft07
import Schemata.Grammar.Identifier
import Schemata.Grammar.Pattern
import Schemata.Grammar.StringFormat
import Schemata.Json.Cursor
import Schemata.Json.Lexeme
import Schemata.Json.Reader
import Schemata.Json.Record
import Schemata.Main
import Schemata.Number.Basic
import Schemata.Number.Binary64
import Schemata.Number.Shortest
import Schemata.Number.Text
import Schemata.Output.Console
import Schemata.Output.Format
import Schemata.Page.Catalog
import Schemata.Page.Sections
import Schemata.Page.Site
import Schemata.Proofs.Command.Again
import Schemata.Proofs.Command.Calls
import Schemata.Proofs.Command.Docs
import Schemata.Proofs.Command.Output
import Schemata.Proofs.Command.Reports
import Schemata.Proofs.Command.Runs
import Schemata.Proofs.Command.Totals
import Schemata.Proofs.File.Beneath
import Schemata.Proofs.File.Canonical
import Schemata.Proofs.File.Directory
import Schemata.Proofs.File.Joining
import Schemata.Proofs.File.Lexical
import Schemata.Proofs.File.Loading
import Schemata.Proofs.File.Order
import Schemata.Proofs.File.Parent
import Schemata.Proofs.File.Plain
import Schemata.Proofs.File.Reordering
import Schemata.Proofs.File.Rewriting
import Schemata.Proofs.File.Spelling
import Schemata.Proofs.File.Walk
import Schemata.Proofs.File.Writing
import Schemata.Proofs.Grammar.Coverage
import Schemata.Proofs.Grammar.Depth
import Schemata.Proofs.Json.Records
import Schemata.Proofs.Json.Scalars
import Schemata.Proofs.Json.Trees
import Schemata.Proofs.Page.Arrangement
import Schemata.Proofs.Page.Collisions
import Schemata.Proofs.Page.Constraints
import Schemata.Proofs.Page.Entries
import Schemata.Proofs.Page.Examples
import Schemata.Proofs.Page.Links
import Schemata.Proofs.Page.Recognized
import Schemata.Proofs.Page.Relocation
import Schemata.Proofs.Page.Rows
import Schemata.Proofs.Page.Site
import Schemata.Proofs.Page.Table
import Schemata.Proofs.Reference.Course
import Schemata.Proofs.Reference.Data
import Schemata.Proofs.Reference.History
import Schemata.Proofs.Reference.Identifiers
import Schemata.Proofs.Reference.Keys
import Schemata.Proofs.Reference.Spellings
import Schemata.Proofs.Reference.Stack
import Schemata.Proofs.Reference.Trail
import Schemata.Proofs.Reference.View
import Schemata.Proofs.Schema.Discovery
import Schemata.Proofs.Schema.Found
import Schemata.Proofs.Schema.Labels
import Schemata.Proofs.Schema.Ways
import Schemata.Proofs.Settings.Fields
import Schemata.Proofs.Settings.Search
import Schemata.Proofs.Text.Bytes
import Schemata.Proofs.Text.Lines
import Schemata.Proofs.Text.Numerals
import Schemata.Proofs.Text.Summary
import Schemata.Proofs.Text.Words
import Schemata.Proofs.Tree.Compact
import Schemata.Proofs.Tree.Data
import Schemata.Proofs.Tree.Pointer
import Schemata.Proofs.Tree.Reordering
import Schemata.Proofs.Tree.Writing
import Schemata.Proofs.Validation.Anchors
import Schemata.Proofs.Validation.Balance
import Schemata.Proofs.Validation.Data
import Schemata.Proofs.Validation.Depth
import Schemata.Proofs.Validation.Descent
import Schemata.Proofs.Validation.Events
import Schemata.Proofs.Validation.Graph
import Schemata.Proofs.Validation.Halting
import Schemata.Proofs.Validation.Independence
import Schemata.Proofs.Validation.Order
import Schemata.Proofs.Validation.Outcomes
import Schemata.Proofs.Validation.Pairs
import Schemata.Proofs.Validation.Places
import Schemata.Proofs.Validation.Positions
import Schemata.Proofs.Validation.Prefixes
import Schemata.Proofs.Validation.Reordering
import Schemata.Proofs.Validation.Reports
import Schemata.Proofs.Validation.Steps
import Schemata.Proofs.Validation.Tour
import Schemata.Proofs.Validation.Verdict
import Schemata.Proofs.Yaml.Blocks
import Schemata.Proofs.Yaml.Fences
import Schemata.Proofs.Yaml.Quotes
import Schemata.Proofs.Yaml.Scalars
import Schemata.Proofs.Yaml.Words
import Schemata.Record.Layout
import Schemata.Reference.Basic
import Schemata.Reference.Reach
import Schemata.Reference.Resolver
import Schemata.Schema.Basic
import Schemata.Schema.Discovery
import Schemata.Schema.Shape
import Schemata.Settings.Basic
import Schemata.Settings.File
import Schemata.Settings.Logging
import Schemata.Source
import Schemata.Text.Alphabetic
import Schemata.Text.Blank
import Schemata.Text.CodePoints
import Schemata.Text.LetterCase
import Schemata.Text.Title
import Schemata.Text.Unprintable
import Schemata.Text.Visible
import Schemata.Tree.Basic
import Schemata.Tree.Path
import Schemata.Tree.Text
import Schemata.Validation.Batch
import Schemata.Validation.Positions
import Schemata.Validation.Walk
import Schemata.Violation
import Schemata.Yaml.Block
import Schemata.Yaml.Document
import Schemata.Yaml.Event
import Schemata.Yaml.Mark
import Schemata.Yaml.Record
import Schemata.Yaml.Scalar
import Schemata.Yaml.Stream
import Schemata.Yaml.Token
import Schemata.Yaml.Token.Names
import Schemata.Yaml.Token.Scalars
import Schemata.Yaml.Token.Scan
import Schemata.Yaml.Value
