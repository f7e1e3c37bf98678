import HeaderReflection.Artifact.Basic
import HeaderReflection.Artifact.Naming
import HeaderReflection.Artifact.Options
import HeaderReflection.Artifact.Registration
import HeaderReflection.Artifact.Tables
import HeaderReflection.Attribute.Basic
import HeaderReflection.Attribute.Parse
import HeaderReflection.Attribute.Render
import HeaderReflection.CommandLine.Arguments
import HeaderReflection.CommandLine.Help
import HeaderReflection.CommandLine.Perform
import HeaderReflection.Config.Basic
import HeaderReflection.Config.Check
import HeaderReflection.Config.Read
import HeaderReflection.Container.Basic
import HeaderReflection.Container.Build
import HeaderReflection.Container.Lineage
import HeaderReflection.Declaration.Brackets
import HeaderReflection.Declaration.Cause
import HeaderReflection.Declaration.Enumerators
import HeaderReflection.Declaration.Function
import HeaderReflection.Declaration.Header
import HeaderReflection.Declaration.Type
import HeaderReflection.Declaration.TypeRef
import HeaderReflection.Declaration.Variable
import HeaderReflection.Digest.Sha256
import HeaderReflection.Fault
import HeaderReflection.FileTree.Basic
import HeaderReflection.FileTree.Change
import HeaderReflection.FileTree.Edit
import HeaderReflection.FileTree.Listing
import HeaderReflection.FileTree.Lookup
import HeaderReflection.FileTree.Path
import HeaderReflection.FileTree.Walk
import HeaderReflection.Json.Basic
import HeaderReflection.Main
import HeaderReflection.Markup.Event
import HeaderReflection.Markup.Scan
import HeaderReflection.Markup.Vocabulary
import HeaderReflection.Number.Basic
import HeaderReflection.Number.Layout
import HeaderReflection.Number.Read
import HeaderReflection.Number.Shortest
import HeaderReflection.Pattern.Basic
import HeaderReflection.Pattern.CharSets
import HeaderReflection.Pattern.Parse
import HeaderReflection.Project.Analysis
import HeaderReflection.Project.Commit
import HeaderReflection.Project.Discover
import HeaderReflection.Project.Dump
import HeaderReflection.Project.Layout
import HeaderReflection.Project.Prune
import HeaderReflection.Project.Report
import HeaderReflection.Project.Run
import HeaderReflection.Text.Bytes
import HeaderReflection.Text.Case
import HeaderReflection.Text.CaseTable
import HeaderReflection.Text.CharClass
import HeaderReflection.Text.ClassTable
import HeaderReflection.Text.Cluster
import HeaderReflection.Text.ClusterTable
import HeaderReflection.Text.Position
import HeaderReflection.Text.Title
import HeaderReflection.Token.Basic
import HeaderReflection.Token.Gap
import HeaderReflection.Token.Lexeme
import HeaderReflection.Yaml.Cursor
import HeaderReflection.Yaml.Node
import HeaderReflection.Yaml.Parse
import HeaderReflection.Yaml.Scalar
import HeaderReflection.Proofs.Artifact.Access
import HeaderReflection.Proofs.Artifact.Ancestry
import HeaderReflection.Proofs.Artifact.Assigned
import HeaderReflection.Proofs.Artifact.Bases
import HeaderReflection.Proofs.Artifact.BodyMacros
import HeaderReflection.Proofs.Artifact.Globals
import HeaderReflection.Proofs.Artifact.Indices
import HeaderReflection.Proofs.Artifact.Inert
import HeaderReflection.Proofs.Artifact.Literals
import HeaderReflection.Proofs.Attribute.Grammar
import HeaderReflection.Proofs.Attribute.Places
import HeaderReflection.Proofs.Attribute.ReadBack
import HeaderReflection.Proofs.Attribute.Readable
import HeaderReflection.Proofs.Attribute.Reread
import HeaderReflection.Proofs.Attribute.RoundTrip
import HeaderReflection.Proofs.Attribute.Spelling
import HeaderReflection.Proofs.CommandLine.Check
import HeaderReflection.Proofs.Container.Symbols
import HeaderReflection.Proofs.Declaration.Declares
import HeaderReflection.Proofs.Declaration.Defaults
import HeaderReflection.Proofs.Declaration.EnumBodies
import HeaderReflection.Proofs.Declaration.Enumerators
import HeaderReflection.Proofs.Declaration.Fixed
import HeaderReflection.Proofs.Declaration.FullHeaders
import HeaderReflection.Proofs.Declaration.HeaderNames
import HeaderReflection.Proofs.Declaration.Headers
import HeaderReflection.Proofs.Declaration.Levels
import HeaderReflection.Proofs.Declaration.Members
import HeaderReflection.Proofs.Declaration.Prototypes
import HeaderReflection.Proofs.Declaration.ReadBack
import HeaderReflection.Proofs.Declaration.TypeNames
import HeaderReflection.Proofs.Declaration.Types
import HeaderReflection.Proofs.Declaration.Unnamed
import HeaderReflection.Proofs.FileTree.Changes
import HeaderReflection.Proofs.FileTree.Descent
import HeaderReflection.Proofs.FileTree.Paths
import HeaderReflection.Proofs.FileTree.Plain
import HeaderReflection.Proofs.FileTree.Walks
import HeaderReflection.Proofs.FileTree.Ways
import HeaderReflection.Proofs.FileTree.WellFormed
import HeaderReflection.Proofs.Lineage.Faults
import HeaderReflection.Proofs.Lineage.Flattening
import HeaderReflection.Proofs.Lineage.Reachable
import HeaderReflection.Proofs.Markup.Arguments
import HeaderReflection.Proofs.Markup.Captures
import HeaderReflection.Proofs.Markup.Cuts
import HeaderReflection.Proofs.Markup.Excerpts
import HeaderReflection.Proofs.Markup.Gist
import HeaderReflection.Proofs.Markup.Heeded
import HeaderReflection.Proofs.Markup.Lines
import HeaderReflection.Proofs.Markup.Looks
import HeaderReflection.Proofs.Markup.Marks
import HeaderReflection.Proofs.Markup.Nesting
import HeaderReflection.Proofs.Markup.Places
import HeaderReflection.Proofs.Markup.Relex
import HeaderReflection.Proofs.Number.Notation
import HeaderReflection.Proofs.Number.RoundTrip
import HeaderReflection.Proofs.Number.Rounding
import HeaderReflection.Proofs.Outcome
import HeaderReflection.Proofs.Outline.Basic
import HeaderReflection.Proofs.Outline.Build
import HeaderReflection.Proofs.Outline.Events
import HeaderReflection.Proofs.Project.Actions
import HeaderReflection.Proofs.Project.Cleaning
import HeaderReflection.Proofs.Project.Current
import HeaderReflection.Proofs.Project.Discovery
import HeaderReflection.Proofs.Project.Distinct
import HeaderReflection.Proofs.Project.Identities
import HeaderReflection.Proofs.Project.Inputs
import HeaderReflection.Proofs.Project.Layout
import HeaderReflection.Proofs.Project.Order
import HeaderReflection.Proofs.Project.Pruning
import HeaderReflection.Proofs.Project.Repeat
import HeaderReflection.Proofs.Project.Selection
import HeaderReflection.Proofs.Project.Shares
import HeaderReflection.Proofs.Project.Stopped
import HeaderReflection.Proofs.Project.Writing
import HeaderReflection.Proofs.Scope.Balance
import HeaderReflection.Proofs.Scope.Bodies
import HeaderReflection.Proofs.Scope.Books
import HeaderReflection.Proofs.Scope.Closing
import HeaderReflection.Proofs.Scope.Enclosing
import HeaderReflection.Proofs.Scope.Files
import HeaderReflection.Proofs.Scope.Forest
import HeaderReflection.Proofs.Scope.Gains
import HeaderReflection.Proofs.Scope.Items
import HeaderReflection.Proofs.Scope.Kept
import HeaderReflection.Proofs.Scope.Ledger
import HeaderReflection.Proofs.Scope.Members
import HeaderReflection.Proofs.Scope.Mute
import HeaderReflection.Proofs.Scope.Names
import HeaderReflection.Proofs.Scope.Records
import HeaderReflection.Proofs.Scope.Stacks
import HeaderReflection.Proofs.Scope.State
import HeaderReflection.Proofs.Scope.Unterminated
import HeaderReflection.Proofs.Text.CharClass
import HeaderReflection.Proofs.Token.Blank
import HeaderReflection.Proofs.Token.Cut
import HeaderReflection.Proofs.Token.Fillers
import HeaderReflection.Proofs.Token.Follow
import HeaderReflection.Proofs.Token.Lexemes
import HeaderReflection.Proofs.Token.Paragraphs
import HeaderReflection.Proofs.Token.Partition
import HeaderReflection.Proofs.Token.Pieces
import HeaderReflection.Proofs.Token.Slices
import HeaderReflection.Proofs.Token.Spacing
import HeaderReflection.Proofs.Token.Spelling
import HeaderReflection.Proofs.Token.Stretch
