import EnumHelpers.Cli.Markup
import EnumHelpers.Cli.Options
import EnumHelpers.Cli.Reach
import EnumHelpers.Cli.Run
import EnumHelpers.Constant.Basic
import EnumHelpers.Constant.Expression
import EnumHelpers.Constant.Literal
import EnumHelpers.Constant.Operator
import EnumHelpers.Emission.Job
import EnumHelpers.Emission.Layout
import EnumHelpers.Emission.Naming
import EnumHelpers.Emission.Report
import EnumHelpers.Emission.Section
import EnumHelpers.Emission.StringLiteral
import EnumHelpers.Emission.Writing
import EnumHelpers.Enum.Display
import EnumHelpers.Enum.Element
import EnumHelpers.Enum.Resolution
import EnumHelpers.Failure
import EnumHelpers.File.Path
import EnumHelpers.File.Tree
import EnumHelpers.Json.Basic
import EnumHelpers.Json.Reader
import EnumHelpers.Json.Shown
import EnumHelpers.Json.Writer
import EnumHelpers.Language
import EnumHelpers.Logging
import EnumHelpers.Main
import EnumHelpers.Number.Binary64
import EnumHelpers.Number.Bits
import EnumHelpers.Number.Fault
import EnumHelpers.Number.Fraction
import EnumHelpers.Number.Integer
import EnumHelpers.OrderedMap
import EnumHelpers.Package.Constants
import EnumHelpers.Package.Directory
import EnumHelpers.Package.Evaluation
import EnumHelpers.Package.Load
import EnumHelpers.Package.Types
import EnumHelpers.Platform.Constraint
import EnumHelpers.Platform.Target
import EnumHelpers.Registry
import EnumHelpers.Settings.Basic
import EnumHelpers.Settings.Document
import EnumHelpers.Source.File
import EnumHelpers.Source.Grammar
import EnumHelpers.Source.Lexer
import EnumHelpers.Source.Literal
import EnumHelpers.Source.Pattern
import EnumHelpers.Source.Reading
import EnumHelpers.Source.Token
import EnumHelpers.Symbol.Address
import EnumHelpers.Symbol.Document
import EnumHelpers.Symbol.Integer
import EnumHelpers.Symbol.Location
import EnumHelpers.Symbol.Table
import EnumHelpers.Text.Alphabet
import EnumHelpers.Text.Blank
import EnumHelpers.Text.CaseTable
import EnumHelpers.Text.Character
import EnumHelpers.Text.Lines
import EnumHelpers.Text.Lower
import EnumHelpers.Text.Quoted
import EnumHelpers.Text.Unprintable
import EnumHelpers.Text.Utf8
import EnumHelpers.Proofs.OrderedMap
import EnumHelpers.Proofs.Enum.Tables
import EnumHelpers.Proofs.Text.Lines
import EnumHelpers.Proofs.Emission.StringLiteral
import EnumHelpers.Proofs.Emission.Blocks
import EnumHelpers.Proofs.Emission.Section
import EnumHelpers.Proofs.Enum.Resolution
import EnumHelpers.Proofs.Emission.ReadBack
import EnumHelpers.Proofs.Emission.Job
import EnumHelpers.Proofs.Emission.Report
import EnumHelpers.Proofs.Number.Digits
import EnumHelpers.Proofs.Constant.Literal
import EnumHelpers.Proofs.Package.Denotation
import EnumHelpers.Proofs.Package.Search
import EnumHelpers.Proofs.Package.Arithmetic
import EnumHelpers.Proofs.Package.Declarations
import EnumHelpers.Proofs.Package.Inlining
import EnumHelpers.Proofs.Package.Typing
import EnumHelpers.Proofs.Package.Redeclared
import EnumHelpers.Proofs.Package.History
import EnumHelpers.Proofs.Emission.Failures
import EnumHelpers.Proofs.Enum.Failures
import EnumHelpers.Proofs.Constant.HexFloat
import EnumHelpers.Proofs.Number.Binary64
import EnumHelpers.Proofs.Constant.Faults
import EnumHelpers.Proofs.Source.Literal
import EnumHelpers.Proofs.Source.Lexer
import EnumHelpers.Proofs.Source.Pattern
import EnumHelpers.Proofs.Source.Reading
import EnumHelpers.Proofs.Package.Limits
import EnumHelpers.Proofs.Package.Loading
import EnumHelpers.Proofs.Enum.Shadowing
import EnumHelpers.Proofs.Emission.Layout
import EnumHelpers.Proofs.Settings.Names
import EnumHelpers.Proofs.Emission.Separation
import EnumHelpers.Proofs.Enum.Enumeration
import EnumHelpers.Proofs.Symbol.Order
import EnumHelpers.Proofs.Cli.Run
import EnumHelpers.Proofs.File.Tree
import EnumHelpers.Proofs.Settings.Document
import EnumHelpers.Proofs.Registry
import EnumHelpers.Proofs.Json.ReadBack
import EnumHelpers.Proofs.File.Path
import EnumHelpers.Proofs.Settings.Saved
import EnumHelpers.Proofs.Package.Directory
import EnumHelpers.Package.Loader
import EnumHelpers.Proofs.Package.Loader
import EnumHelpers.Proofs.Enum.Lookup
import EnumHelpers.Proofs.Symbol.Aliases
import EnumHelpers.Proofs.Platform.Header
import EnumHelpers.Proofs.Platform.Token
import EnumHelpers.Proofs.Platform.Constraint
import EnumHelpers.Proofs.Number.Bits
import EnumHelpers.Proofs.Package.Integers
import EnumHelpers.Proofs.Package.Sizes
import EnumHelpers.Proofs.Emission.Interpreted
import EnumHelpers.Proofs.Source.Position
import EnumHelpers.Proofs.Package.Comments
import EnumHelpers.Proofs.Number.Nearest
import EnumHelpers.Proofs.Constant.Exactness
import EnumHelpers.Proofs.Constant.Positional
import EnumHelpers.Proofs.Number.Script
import EnumHelpers.Proofs.Constant.Natural
import EnumHelpers.Proofs.Symbol.Integer
import EnumHelpers.Proofs.Json.Shown
import EnumHelpers.Proofs.Symbol.Document
import EnumHelpers.Proofs.Settings.Command
import EnumHelpers.Proofs.Emission.Header
import EnumHelpers.Proofs.Emission.Tables
import EnumHelpers.Proofs.Text.Utf8
import EnumHelpers.Proofs.Json.Grammar
import EnumHelpers.Proofs.Json.Documents
import EnumHelpers.Proofs.File.Document
import EnumHelpers.Proofs.Text.Character
import EnumHelpers.Proofs.Text.Lower
import EnumHelpers.Proofs.Emission.Naming
import EnumHelpers.Proofs.Platform.FileName
import EnumHelpers.Proofs.Emission.Warnings
import EnumHelpers.Proofs.Emission.Declared
import EnumHelpers.Proofs.Emission.Distinct
import EnumHelpers.Proofs.Enum.Trimming
import EnumHelpers.Proofs.Enum.Fallback
import EnumHelpers.Proofs.Settings.Warnings
import EnumHelpers.Proofs.Emission.NormalForm
import EnumHelpers.Proofs.Platform.Suffix
import EnumHelpers.Proofs.Platform.Tags
import EnumHelpers.Proofs.Json.Limit
import EnumHelpers.Proofs.Settings.Checks
import EnumHelpers.Proofs.Settings.Layers
