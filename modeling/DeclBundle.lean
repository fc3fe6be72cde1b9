import DeclBundle.Ambient
import DeclBundle.Bundle
import DeclBundle.Command.Args
import DeclBundle.Command.Exit
import DeclBundle.Command.Files
import DeclBundle.Command.LogFormat
import DeclBundle.Command.Path
import DeclBundle.Command.Report
import DeclBundle.Command.Run
import DeclBundle.Decode.Basic
import DeclBundle.Decode.Record
import DeclBundle.Diagnostic
import DeclBundle.Json.Basic
import DeclBundle.Json.Expect
import DeclBundle.Json.Numeral
import DeclBundle.Json.Reader
import DeclBundle.Json.Writer
import DeclBundle.Link.Basic
import DeclBundle.Link.Resolve
import DeclBundle.Link.Stem
import DeclBundle.Link.Surface
import DeclBundle.Main
import DeclBundle.Manifest
import DeclBundle.Merge
import DeclBundle.Names.Choice
import DeclBundle.Names.Final
import DeclBundle.Names.Naming
import DeclBundle.Names.Rename
import DeclBundle.Names.Scopes
import DeclBundle.Names.Site
import DeclBundle.Names.Suffix
import DeclBundle.Options
import DeclBundle.Output
import DeclBundle.Print.Statement
import DeclBundle.Print.Type
import DeclBundle.Print.Writer
import DeclBundle.Proofs.Ambient
import DeclBundle.Proofs.Bundle.Aliases
import DeclBundle.Proofs.Bundle.Broken
import DeclBundle.Proofs.Bundle.Clause
import DeclBundle.Proofs.Bundle.Closed
import DeclBundle.Proofs.Bundle.Distinct
import DeclBundle.Proofs.Bundle.Globals
import DeclBundle.Proofs.Bundle.Identities
import DeclBundle.Proofs.Bundle.Imports
import DeclBundle.Proofs.Bundle.Libraries
import DeclBundle.Proofs.Bundle.Namespaces
import DeclBundle.Proofs.Bundle.Order
import DeclBundle.Proofs.Bundle.References
import DeclBundle.Proofs.Bundle.Renumber
import DeclBundle.Proofs.Bundle.Reported
import DeclBundle.Proofs.Bundle.Stages
import DeclBundle.Proofs.Bundle.Survival
import DeclBundle.Proofs.Bundle.Symbols
import DeclBundle.Proofs.Bundle.Unique
import DeclBundle.Proofs.Bundle.Unrelated
import DeclBundle.Proofs.Bundle.Within
import DeclBundle.Proofs.Command.Run
import DeclBundle.Proofs.Decode.Reading
import DeclBundle.Proofs.Link.Acyclic
import DeclBundle.Proofs.Link.Agreement
import DeclBundle.Proofs.Link.Derivation
import DeclBundle.Proofs.Link.Resolve
import DeclBundle.Proofs.Link.Stars
import DeclBundle.Proofs.Link.Surface
import DeclBundle.Proofs.Link.Tables
import DeclBundle.Proofs.Merge
import DeclBundle.Proofs.Names.Alike
import DeclBundle.Proofs.Names.Apart
import DeclBundle.Proofs.Names.Around
import DeclBundle.Proofs.Names.Asked
import DeclBundle.Proofs.Names.Asking
import DeclBundle.Proofs.Names.Beside
import DeclBundle.Proofs.Names.Binders
import DeclBundle.Proofs.Names.Bodies
import DeclBundle.Proofs.Names.Capture
import DeclBundle.Proofs.Names.Choice
import DeclBundle.Proofs.Names.Covered
import DeclBundle.Proofs.Names.Entering
import DeclBundle.Proofs.Names.Exported
import DeclBundle.Proofs.Names.Finished
import DeclBundle.Proofs.Names.Frames
import DeclBundle.Proofs.Names.Given
import DeclBundle.Proofs.Names.Greedy
import DeclBundle.Proofs.Names.Independent
import DeclBundle.Proofs.Names.NamespaceExports
import DeclBundle.Proofs.Names.Naming
import DeclBundle.Proofs.Names.Noted
import DeclBundle.Proofs.Names.Requests
import DeclBundle.Proofs.Names.Rooted
import DeclBundle.Proofs.Names.Scopes
import DeclBundle.Proofs.Names.Settings
import DeclBundle.Proofs.Names.Shape
import DeclBundle.Proofs.Names.Stack
import DeclBundle.Proofs.Names.Suffix
import DeclBundle.Proofs.Names.Walk
import DeclBundle.Proofs.Print.Counters
import DeclBundle.Proofs.Print.Face
import DeclBundle.Proofs.Print.Grouping
import DeclBundle.Proofs.Print.Marks
import DeclBundle.Proofs.Print.Operators
import DeclBundle.Proofs.Print.Positions
import DeclBundle.Proofs.Print.Shown
import DeclBundle.Proofs.Reach.Closure
import DeclBundle.Proofs.Reach.Edges
import DeclBundle.Proofs.Reach.Levels
import DeclBundle.Proofs.Reach.Modules
import DeclBundle.Proofs.Reach.Named
import DeclBundle.Proofs.Reach.Whole
import DeclBundle.Proofs.Reach.Within
import DeclBundle.Proofs.Reference.Analysis
import DeclBundle.Proofs.Reference.Inferred
import DeclBundle.Proofs.Reference.Parameters
import DeclBundle.Proofs.Reference.Places
import DeclBundle.Proofs.Reference.Scoping
import DeclBundle.Proofs.Renumber.Basic
import DeclBundle.Proofs.Renumber.Bodies
import DeclBundle.Proofs.Renumber.Link
import DeclBundle.Proofs.Renumber.Merge
import DeclBundle.Proofs.Renumber.Moves
import DeclBundle.Proofs.Renumber.Names
import DeclBundle.Proofs.Renumber.Naming
import DeclBundle.Proofs.Renumber.Print
import DeclBundle.Proofs.Renumber.Reach
import DeclBundle.Proofs.Renumber.Reference
import DeclBundle.Proofs.Renumber.Rename
import DeclBundle.Proofs.Renumber.Tree
import DeclBundle.Proofs.Renumber.Units
import DeclBundle.Proofs.Shake
import DeclBundle.Proofs.SourceMap.Mappings
import DeclBundle.Proofs.SourceMap.Vlq
import DeclBundle.Proofs.SourceMap.Words
import DeclBundle.Proofs.Store
import DeclBundle.Proofs.Survival
import DeclBundle.Proofs.Table
import DeclBundle.Proofs.Text.Literal
import DeclBundle.Proofs.Text.Outside
import DeclBundle.Proofs.Text.Template
import DeclBundle.Proofs.Tree.Allocator
import DeclBundle.Proofs.Tree.Decoded
import DeclBundle.Proofs.Tree.Erase
import DeclBundle.Proofs.Tree.Identity
import DeclBundle.Proofs.Tree.Parts
import DeclBundle.Proofs.Tree.RoundTrip
import DeclBundle.Reach.Closure
import DeclBundle.Reach.Edges
import DeclBundle.Reference.Basic
import DeclBundle.Reference.Infer
import DeclBundle.Shake
import DeclBundle.SourceMap.Basic
import DeclBundle.SourceMap.Vlq
import DeclBundle.Stats
import DeclBundle.Store
import DeclBundle.Table
import DeclBundle.Text.Alphanumeric
import DeclBundle.Text.Case
import DeclBundle.Text.Quoted
import DeclBundle.Text.Split
import DeclBundle.Text.Template
import DeclBundle.Text.Utf16
import DeclBundle.Tree.Allocator
import DeclBundle.Tree.Build
import DeclBundle.Tree.Decode
import DeclBundle.Tree.Encode
import DeclBundle.Tree.Entity
import DeclBundle.Tree.Identity
import DeclBundle.Tree.Modifiers
import DeclBundle.Tree.Statement
import DeclBundle.Tree.Type
