import GuestCode.Capability.BestCases
import GuestCode.Capability.Binding
import GuestCode.Capability.Files
import GuestCode.Capability.Guides
import GuestCode.Capability.Metadata
import GuestCode.CommandLine.Arguments
import GuestCode.CommandLine.Invocation
import GuestCode.CommandLine.Program
import GuestCode.CommandLine.Screen
import GuestCode.Configuration.Basic
import GuestCode.Configuration.File
import GuestCode.Data.Arithmetic
import GuestCode.Data.Calendar
import GuestCode.Data.Coercion
import GuestCode.Data.Display
import GuestCode.Data.Order
import GuestCode.Data.Signature
import GuestCode.Data.Value
import GuestCode.Diagnostics.Level
import GuestCode.Diagnostics.Masking
import GuestCode.Disk.Access
import GuestCode.Disk.Basic
import GuestCode.Disk.Path
import GuestCode.Execution.Engine
import GuestCode.Execution.Host
import GuestCode.Execution.LogBuffer
import GuestCode.Execution.Message
import GuestCode.Execution.Result
import GuestCode.Execution.Runner
import GuestCode.Failure
import GuestCode.Failure.Making
import GuestCode.Json.Draft
import GuestCode.Json.Reader
import GuestCode.Json.Writer
import GuestCode.Machine
import GuestCode.Main
import GuestCode.Number.Binary64
import GuestCode.Number.Shortest
import GuestCode.Proofs.Capability.BestCases
import GuestCode.Proofs.Capability.Confined
import GuestCode.Proofs.Capability.DocumentPlaces
import GuestCode.Proofs.Capability.Documents
import GuestCode.Proofs.Capability.FileContents
import GuestCode.Proofs.Capability.FileSearch
import GuestCode.Proofs.Capability.GuideConflicts
import GuestCode.Proofs.Capability.GuideIndex
import GuestCode.Proofs.Capability.GuideRanking
import GuestCode.Proofs.Capability.GuideSelection
import GuestCode.Proofs.Capability.Listing
import GuestCode.Proofs.Capability.Narrowing
import GuestCode.Proofs.Capability.Ordering
import GuestCode.Proofs.Capability.Resolution
import GuestCode.Proofs.CommandLine.JsonRuns
import GuestCode.Proofs.Configuration.Outcome
import GuestCode.Proofs.Configuration.RoundTrip
import GuestCode.Proofs.Configuration.Saving
import GuestCode.Proofs.Data.Instants
import GuestCode.Proofs.Data.Outcome
import GuestCode.Proofs.Data.Scalars
import GuestCode.Proofs.Data.Sorting
import GuestCode.Proofs.Data.Stability
import GuestCode.Proofs.Data.ValueOrder
import GuestCode.Proofs.Diagnostics.Completeness
import GuestCode.Proofs.Diagnostics.Marks
import GuestCode.Proofs.Diagnostics.Previews
import GuestCode.Proofs.Diagnostics.Remnants
import GuestCode.Proofs.Diagnostics.Secrets
import GuestCode.Proofs.Diagnostics.Shapes
import GuestCode.Proofs.Disk.Contents
import GuestCode.Proofs.Disk.Files
import GuestCode.Proofs.Disk.Folders
import GuestCode.Proofs.Disk.Following
import GuestCode.Proofs.Disk.Tree
import GuestCode.Proofs.Disk.Visiting
import GuestCode.Proofs.Execution.Engine
import GuestCode.Proofs.Execution.ErrorOutput
import GuestCode.Proofs.Execution.Replies
import GuestCode.Proofs.Execution.Results
import GuestCode.Proofs.Execution.Run
import GuestCode.Proofs.Execution.Wire
import GuestCode.Proofs.Json.Characters
import GuestCode.Proofs.Json.Drafts
import GuestCode.Proofs.Json.Numerals
import GuestCode.Proofs.Json.Plain
import GuestCode.Proofs.Json.RoundTrip
import GuestCode.Proofs.Json.Strings
import GuestCode.Proofs.Machine.Steps
import GuestCode.Proofs.Number.Rounding
import GuestCode.Proofs.Rewrite.Balance
import GuestCode.Proofs.Rewrite.CallSites
import GuestCode.Proofs.Rewrite.FirstLine
import GuestCode.Proofs.Rewrite.Inert
import GuestCode.Proofs.Rewrite.Mark
import GuestCode.Proofs.Rewrite.MarkedFirst
import GuestCode.Proofs.Rewrite.ModuleExports
import GuestCode.Proofs.Rewrite.ModuleGrammar
import GuestCode.Proofs.Rewrite.ModuleImports
import GuestCode.Proofs.Rewrite.ModuleLists
import GuestCode.Proofs.Rewrite.ModuleRemains
import GuestCode.Proofs.Rewrite.ModuleRemoval
import GuestCode.Proofs.Rewrite.ModuleTokens
import GuestCode.Proofs.Rewrite.ModuleWords
import GuestCode.Proofs.Rewrite.ObjectCalls
import GuestCode.Proofs.Rewrite.Ordinary
import GuestCode.Proofs.Rewrite.ParameterGrammar
import GuestCode.Proofs.Rewrite.Parameters
import GuestCode.Proofs.Rewrite.Passes
import GuestCode.Proofs.Rewrite.SafeEdits
import GuestCode.Proofs.Rewrite.SafeRules
import GuestCode.Proofs.Rewrite.Signatures
import GuestCode.Proofs.Rewrite.StrippedLists
import GuestCode.Proofs.Rewrite.StrippedSignatures
import GuestCode.Proofs.Rewrite.SyncCalls
import GuestCode.Proofs.Rewrite.Unwrapping
import GuestCode.Proofs.Service.Answers
import GuestCode.Proofs.Service.Session
import GuestCode.Proofs.Snippet.ArgumentLists
import GuestCode.Proofs.Snippet.ArgumentPartition
import GuestCode.Proofs.Snippet.Arguments
import GuestCode.Proofs.Snippet.CapabilityCalls
import GuestCode.Proofs.Snippet.CodePlaces
import GuestCode.Proofs.Snippet.CodeRuns
import GuestCode.Proofs.Snippet.Exchange
import GuestCode.Proofs.Snippet.Front
import GuestCode.Proofs.Snippet.Gaps
import GuestCode.Proofs.Snippet.ImportGrammar
import GuestCode.Proofs.Snippet.ImportedNames
import GuestCode.Proofs.Snippet.Lookup
import GuestCode.Proofs.Snippet.Nesting
import GuestCode.Proofs.Snippet.Prefix
import GuestCode.Proofs.Snippet.Reading
import GuestCode.Proofs.Snippet.Remedies
import GuestCode.Proofs.Snippet.Slashes
import GuestCode.Proofs.Snippet.Tiling
import GuestCode.Proofs.Snippet.Tokens
import GuestCode.Proofs.Text.Edges
import GuestCode.Proofs.Text.Known
import GuestCode.Proofs.Text.Language
import GuestCode.Proofs.Text.Matching
import GuestCode.Proofs.Text.Preferred
import GuestCode.Proofs.Text.Replacing
import GuestCode.Proofs.Text.Split
import GuestCode.Proofs.Text.Utf8
import GuestCode.Proofs.Text.Words
import GuestCode.Rewrite.Edit
import GuestCode.Rewrite.Files
import GuestCode.Rewrite.Modules
import GuestCode.Rewrite.Runnable
import GuestCode.Rewrite.Types
import GuestCode.Rewrite.Wrapper
import GuestCode.Service.Server
import GuestCode.Service.Tool
import GuestCode.Snippet.Dialect
import GuestCode.Snippet.Grammar
import GuestCode.Snippet.Names
import GuestCode.Snippet.Place
import GuestCode.Snippet.Region
import GuestCode.Snippet.Remedy
import GuestCode.Snippet.Segment
import GuestCode.Text.Case
import GuestCode.Text.Classes
import GuestCode.Text.Glob
import GuestCode.Text.Numeral
import GuestCode.Text.Pattern
import GuestCode.Text.Split
import GuestCode.Text.Utf8
import GuestCode.Yaml.Construction
import GuestCode.Yaml.Cursor
import GuestCode.Yaml.Graph
import GuestCode.Yaml.Page
import GuestCode.Yaml.Reader
import GuestCode.Yaml.Scalar
import GuestCode.Yaml.Text
import GuestCode.Yaml.Token
import GuestCode.Yaml.Writer
