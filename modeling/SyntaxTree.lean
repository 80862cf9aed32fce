import SyntaxTree.Builder
import SyntaxTree.Bytes.Align
import SyntaxTree.Bytes.Ascii
import SyntaxTree.Bytes.BigEndian
import SyntaxTree.Bytes.Hex
import SyntaxTree.Command.Arguments
import SyntaxTree.Command.Compile
import SyntaxTree.Command.Dump
import SyntaxTree.Command.Report
import SyntaxTree.Compile
import SyntaxTree.Cursor
import SyntaxTree.Decimal.Binary64
import SyntaxTree.Decimal.Layout
import SyntaxTree.Decimal.Shortest
import SyntaxTree.Decimal.Whole
import SyntaxTree.Error
import SyntaxTree.FileStore
import SyntaxTree.FileTable
import SyntaxTree.Header
import SyntaxTree.Json.Basic
import SyntaxTree.Json.Fault
import SyntaxTree.Json.Instances
import SyntaxTree.Json.Reader
import SyntaxTree.Json.Record
import SyntaxTree.Kind
import SyntaxTree.LineDirective
import SyntaxTree.Literal.Error
import SyntaxTree.Literal.Escape
import SyntaxTree.Literal.Integer
import SyntaxTree.Literal.Real
import SyntaxTree.Main
import SyntaxTree.Node
import SyntaxTree.Notice
import SyntaxTree.Outcome
import SyntaxTree.Path
import SyntaxTree.Position
import SyntaxTree.Proofs.Draft
import SyntaxTree.Proofs.FileIndices
import SyntaxTree.Proofs.FileTable
import SyntaxTree.Proofs.HeaderCodec
import SyntaxTree.Proofs.NodeLayout
import SyntaxTree.Proofs.Outline
import SyntaxTree.Proofs.Recursion
import SyntaxTree.Proofs.RoundTrip
import SyntaxTree.Proofs.TextRoundTrip
import SyntaxTree.Session
import SyntaxTree.Settings
import SyntaxTree.Slots
import SyntaxTree.Statements
import SyntaxTree.Tag
import SyntaxTree.Text.Blank
import SyntaxTree.Text.CodePointSet
import SyntaxTree.Text.DecimalDigit
import SyntaxTree.Text.Lossy
import SyntaxTree.Text.Printable
import SyntaxTree.Text.Quoted
import SyntaxTree.Text.Utf8
import SyntaxTree.Tracker
import SyntaxTree.Tree.Basic
import SyntaxTree.Tree.Decode
import SyntaxTree.Tree.JsonDump
import SyntaxTree.Tree.Read
import SyntaxTree.Tree.TextDump
import SyntaxTree.Proofs.CursorPath
import SyntaxTree.Proofs.EarliestPosition
import SyntaxTree.Proofs.ListGrouping
import SyntaxTree.Proofs.EscapeInPlace
import SyntaxTree.Proofs.Reencoding
import SyntaxTree.Proofs.Spelling
import SyntaxTree.Proofs.IntegerDump
import SyntaxTree.Proofs.EscapeReference
import SyntaxTree.Proofs.DirectiveGrammar
import SyntaxTree.Proofs.Repositioning
import SyntaxTree.Proofs.MergePosition
import SyntaxTree.Proofs.BranchStart
import SyntaxTree.Proofs.GuardedReading
import SyntaxTree.Proofs.NodeSites
import SyntaxTree.Proofs.SizeFaults
import SyntaxTree.Proofs.Tiling
import SyntaxTree.Proofs.Locality
import SyntaxTree.Proofs.DumpLines
import SyntaxTree.Proofs.Interning
import SyntaxTree.Proofs.DepthGuard
import SyntaxTree.Proofs.BaseNotation
import SyntaxTree.Proofs.SequenceReading
import SyntaxTree.Proofs.NumeralGrammar
import SyntaxTree.Proofs.NearestDouble
import SyntaxTree.Proofs.RealLiteral
import SyntaxTree.Proofs.HeaderInverse
import SyntaxTree.Proofs.JsonStrings
import SyntaxTree.Proofs.TagReading
