import CodeOutline.Analyzer
import CodeOutline.Batch
import CodeOutline.Command.Arguments
import CodeOutline.Command.Run
import CodeOutline.Config.Read
import CodeOutline.Main
import CodeOutline.Outline.Projection
import CodeOutline.Registry
import CodeOutline.Report.Files
import CodeOutline.Scaffold.Language
import CodeOutline.Session
import CodeOutline.Text.Comment
import CodeOutline.Text.Modifiers
import CodeOutline.Token.Builder
import CodeOutline.Token.Columns
import CodeOutline.Token.Encoding
import CodeOutline.Proofs.Registry.Slots
import CodeOutline.Proofs.Session.History
import CodeOutline.Proofs.Outline.Expansion
import CodeOutline.Proofs.Token.Collections
import CodeOutline.Proofs.Token.Styles
import CodeOutline.Proofs.Token.RoundTrip
import CodeOutline.Proofs.Less.Braces
import CodeOutline.Proofs.Less.Acceptance
import CodeOutline.Proofs.Less.Forest
import CodeOutline.Proofs.Less.Structure
import CodeOutline.Proofs.FileSystem.Changes
import CodeOutline.Proofs.Session.Containment
import CodeOutline.Proofs.Json.Refusals
import CodeOutline.Proofs.Json.Mirror
import CodeOutline.Proofs.Registry.Calls
import CodeOutline.Proofs.FileSystem.Relative
import CodeOutline.Proofs.Batch.Known
import CodeOutline.Proofs.Batch.History
import CodeOutline.Proofs.Batch.Schedule
import CodeOutline.Proofs.Batch.Order
import CodeOutline.Proofs.Token.Distinct
import CodeOutline.Proofs.Analysis.Distinct
import CodeOutline.Proofs.Session.Selection
import CodeOutline.Proofs.Php.Names
import CodeOutline.Proofs.Php.Declarations
import CodeOutline.Proofs.Php.Imports
import CodeOutline.Proofs.Php.Rereading
import CodeOutline.Proofs.Syntax.Judging
import CodeOutline.Proofs.Php.Pieces
import CodeOutline.Proofs.Php.Parameters
import CodeOutline.Proofs.Php.Members
import CodeOutline.Proofs.Php.Writing
import CodeOutline.Proofs.Analysis.Spaces
import CodeOutline.Proofs.CFamily.Members
import CodeOutline.Proofs.Rapid.Modules
import CodeOutline.Proofs.Rapid.Programs
import CodeOutline.Proofs.Less.Places
import CodeOutline.Proofs.Outline.Roots
import CodeOutline.Proofs.Text.Points
import CodeOutline.Proofs.Token.Columns
import CodeOutline.Proofs.Command.Frame
import CodeOutline.Proofs.Text.Occurrence
import CodeOutline.Proofs.Syntax.Places
import CodeOutline.Proofs.Token.Spans
import CodeOutline.Proofs.Syntax.Grammars
import CodeOutline.Proofs.Analysis.Spans
import CodeOutline.Proofs.Less.Spans
import CodeOutline.Proofs.Analysis.Columns
import CodeOutline.Proofs.Outline.Order
import CodeOutline.Proofs.Scaffold.Likeness
import CodeOutline.Proofs.Scaffold.Brackets
import CodeOutline.Proofs.Session.Questions
import CodeOutline.Proofs.Less.Blanking
import CodeOutline.Proofs.Less.Selectors
import CodeOutline.Proofs.Less.Variables
import CodeOutline.Proofs.Css.Comments
import CodeOutline.Proofs.Rules.Blocks
import CodeOutline.Proofs.Rules.Variables
import CodeOutline.Proofs.Rapid.Comments
import CodeOutline.Proofs.Rapid.Visibility
import CodeOutline.Proofs.Text.Comments
import CodeOutline.Proofs.Python.Imports
import CodeOutline.Proofs.Python.Properties
import CodeOutline.Proofs.Java.Arrays
import CodeOutline.Proofs.Php.Signs
import CodeOutline.Proofs.Php.Lookups
import CodeOutline.Proofs.CFamily.Arguments
import CodeOutline.Proofs.Registry.Dispatch
import CodeOutline.Proofs.Batch.Collection
import CodeOutline.Proofs.Less.Scanner
import CodeOutline.Proofs.Report.Tree
import CodeOutline.Proofs.Config.Settings
import CodeOutline.Proofs.Java.Rereading
