import TextualData.Charset.Decode
import TextualData.Charset.Header
import TextualData.Charset.Label
import TextualData.Charset.SingleByte
import TextualData.Charset.Unicode
import TextualData.CommandLine.Arguments
import TextualData.CommandLine.Program
import TextualData.CommandLine.Report
import TextualData.Cursor
import TextualData.Decimal.Basic
import TextualData.Decimal.Nearest
import TextualData.Decimal.Shortest
import TextualData.Decimal.Text
import TextualData.Document.Json
import TextualData.Document.Number
import TextualData.Document.Yaml.Basic
import TextualData.Document.Yaml.BlockScalar
import TextualData.Document.Yaml.Document
import TextualData.Document.Yaml.Gap
import TextualData.Document.Yaml.Layout
import TextualData.Document.Yaml.Node
import TextualData.Document.Yaml.Place
import TextualData.Document.Yaml.Plain
import TextualData.Document.Yaml.Quoted
import TextualData.Document.Yaml.Scalar
import TextualData.Document.Yaml.Tag
import TextualData.Document.Yaml.Token
import TextualData.Entries
import TextualData.Environment.Basic
import TextualData.Environment.Scripted
import TextualData.Environment.Traced
import TextualData.Error.Basic
import TextualData.Error.Loading
import TextualData.Error.Syntax
import TextualData.Evaluation
import TextualData.Files.Basic
import TextualData.Files.Known
import TextualData.Files.Tree
import TextualData.Grammar.Blanks
import TextualData.Grammar.Extent
import TextualData.Grammar.Literal
import TextualData.Grammar.Scan
import TextualData.Grammar.Separator
import TextualData.Grammar.Token
import TextualData.Loader.Arguments
import TextualData.Loader.Basic
import TextualData.Loader.Builtin
import TextualData.Loader.Custom
import TextualData.Loader.Environment
import TextualData.Loader.Option
import TextualData.Loader.Report
import TextualData.Loader.Variable
import TextualData.Location
import TextualData.Main
import TextualData.Mode
import TextualData.Numeral
import TextualData.Path
import TextualData.Proofs.Advance
import TextualData.Proofs.Blame
import TextualData.Proofs.Blanks
import TextualData.Proofs.BlockText
import TextualData.Proofs.Bracketing
import TextualData.Proofs.ComparedRuns
import TextualData.Proofs.Comparison
import TextualData.Proofs.Composition
import TextualData.Proofs.Deferral
import TextualData.Proofs.Divisions
import TextualData.Proofs.DocumentValues
import TextualData.Proofs.Dumps
import TextualData.Proofs.EnclosedListings
import TextualData.Proofs.EnclosedReading
import TextualData.Proofs.EnclosedSeparators
import TextualData.Proofs.EnclosedTexts
import TextualData.Proofs.Enclosure
import TextualData.Proofs.EntryTexts
import TextualData.Proofs.EvaluatedValues
import TextualData.Proofs.ExactDumps
import TextualData.Proofs.Failing
import TextualData.Proofs.Finishing
import TextualData.Proofs.FinishingRuns
import TextualData.Proofs.FirstCharacters
import TextualData.Proofs.FoldedLines
import TextualData.Proofs.ForcedStrings
import TextualData.Proofs.Forcing
import TextualData.Proofs.Gaps
import TextualData.Proofs.HeaderForms
import TextualData.Proofs.HeaderOffsets
import TextualData.Proofs.Headers
import TextualData.Proofs.InlineText
import TextualData.Proofs.Invocations
import TextualData.Proofs.ItemTexts
import TextualData.Proofs.Joints
import TextualData.Proofs.LeadingGaps
import TextualData.Proofs.Legibility
import TextualData.Proofs.LexicalScope
import TextualData.Proofs.LineNumbers
import TextualData.Proofs.Lines
import TextualData.Proofs.Literals
import TextualData.Proofs.LoadedTables
import TextualData.Proofs.LocationBytes
import TextualData.Proofs.LowerCase
import TextualData.Proofs.Nesting
import TextualData.Proofs.NormalNames
import TextualData.Proofs.NumberCells
import TextualData.Proofs.NumeralText
import TextualData.Proofs.Numerals
import TextualData.Proofs.Observations
import TextualData.Proofs.OffsetBlanks
import TextualData.Proofs.OffsetEvaluation
import TextualData.Proofs.OffsetExtent
import TextualData.Proofs.OffsetLiterals
import TextualData.Proofs.OffsetRuns
import TextualData.Proofs.Offsets
import TextualData.Proofs.Outlines
import TextualData.Proofs.Progress
import TextualData.Proofs.PropertyEscapes
import TextualData.Proofs.QuotedKeys
import TextualData.Proofs.QuotedLines
import TextualData.Proofs.QuotedText
import TextualData.Proofs.ReadTokens
import TextualData.Proofs.Reading
import TextualData.Proofs.ReadingComplete
import TextualData.Proofs.ReadingSound
import TextualData.Proofs.Relocation
import TextualData.Proofs.RepeatedColumns
import TextualData.Proofs.Rereading
import TextualData.Proofs.Rounds
import TextualData.Proofs.RowFaults
import TextualData.Proofs.RowNumbers
import TextualData.Proofs.Runs
import TextualData.Proofs.Separation
import TextualData.Proofs.Sessions
import TextualData.Proofs.ShiftedScans
import TextualData.Proofs.Simulation
import TextualData.Proofs.SkippedKeys
import TextualData.Proofs.SkippedListings
import TextualData.Proofs.SkippedLiterals
import TextualData.Proofs.SkippedTokens
import TextualData.Proofs.SkippedValues
import TextualData.Proofs.Skipping
import TextualData.Proofs.SkippingAgrees
import TextualData.Proofs.SliceLineBreaks
import TextualData.Proofs.Spans
import TextualData.Proofs.Spellings
import TextualData.Proofs.TabStops
import TextualData.Proofs.TableCells
import TextualData.Proofs.TableRecords
import TextualData.Proofs.TableRows
import TextualData.Proofs.Tasks
import TextualData.Proofs.Termination
import TextualData.Proofs.Terms
import TextualData.Proofs.TokenMeanings
import TextualData.Proofs.Tokens
import TextualData.Proofs.Traces
import TextualData.Proofs.Trimming
import TextualData.Proofs.Unwinding
import TextualData.Proofs.Utf8Text
import TextualData.Proofs.WholeExpressions
import TextualData.Proofs.WholeTexts
import TextualData.Proofs.WindowBounds
import TextualData.Proofs.WindowSafety
import TextualData.Proofs.WindowTexts
import TextualData.Proofs.Windows
import TextualData.Proofs.WrittenProperties
import TextualData.Properties
import TextualData.Slices.Basic
import TextualData.Slices.Options
import TextualData.Table.Basic
import TextualData.Table.Column
import TextualData.Table.Options
import TextualData.Table.Records
import TextualData.Template.Basic
import TextualData.Template.Render
import TextualData.Template.Token
import TextualData.Text.Blank
import TextualData.Text.CaseTables
import TextualData.Text.HiddenTable
import TextualData.Text.Lines
import TextualData.Text.LowerCase
import TextualData.Text.Offset
import TextualData.Text.Quoted
import TextualData.Text.QuotedExactly
import TextualData.Text.Ranges
import TextualData.Text.Tabs
import TextualData.Value.Basic
import TextualData.Value.Dump
import TextualData.Value.Equality
import TextualData.Value.Plain
