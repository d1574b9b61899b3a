import NotePress.Text.Blank
import NotePress.Text.Lines
import NotePress.Markup.Kind
import NotePress.Markup.Lexer
import NotePress.Markup.Inline
import NotePress.Markup.Parse
import NotePress.Markup.Cursor
import NotePress.Markup.Writing
import NotePress.Document.Reading
import NotePress.Disk
import NotePress.Directive
import NotePress.Html.Piece
import NotePress.Execution
import NotePress.Page.Render
import NotePress.Toml.Read
import NotePress.Text.Utf8
import NotePress.Settings
import NotePress.CommandLine
import NotePress.Shell.Script
import NotePress.Shell.Grammar
import NotePress.Shell.Pattern
import NotePress.Shell.Arithmetic
import NotePress.Shell.Format
import NotePress.Shell.Filter
import NotePress.Shell.Signal
import NotePress.Shell.World
import NotePress.Shell.Field
import NotePress.Shell.Condition
import NotePress.Shell.Act
import NotePress.Shell.Run
import NotePress.Shell.Interpret
import NotePress.Main
import NotePress.Proofs.Markup.Lexing
import NotePress.Proofs.Markup.Reading
import NotePress.Proofs.Markup.Grammar
import NotePress.Proofs.Markup.Lossless
import NotePress.Proofs.Html.Signs
import NotePress.Proofs.Html.Legible
import NotePress.Proofs.Page.Traversal
import NotePress.Proofs.Html.Balance
import NotePress.Proofs.Page.Nesting
import NotePress.Proofs.Html.Glimpse
import NotePress.Proofs.Page.Contents
import NotePress.Proofs.Page.Likeness
import NotePress.Proofs.Path.Segments
import NotePress.Proofs.Path.Spelling
import NotePress.Proofs.Disk.LinkFree
import NotePress.Proofs.Page.Progress
import NotePress.Proofs.Page.Compilation
import NotePress.Proofs.Page.Links
import NotePress.Proofs.Page.Leaves
import NotePress.Proofs.Page.Course
import NotePress.Proofs.Page.Calls
import NotePress.Proofs.Page.PageFile
import NotePress.Proofs.Page.Pairing
import NotePress.Proofs.Disk.ReadablePlaces
import NotePress.Proofs.Page.Termination
import NotePress.Proofs.Path.Places
import NotePress.Proofs.Disk.Walking
import NotePress.Proofs.Disk.Entering
import NotePress.Proofs.Path.Targets
import NotePress.Proofs.Disk.Outputs
import NotePress.Proofs.Disk.Sights
import NotePress.Proofs.Disk.Twins
import NotePress.Proofs.Page.Pages
import NotePress.Proofs.Page.Findings
import NotePress.Proofs.Page.Envelope
import NotePress.Proofs.Page.Histories
import NotePress.Proofs.Page.Coverage
import NotePress.Proofs.Page.Order
import NotePress.Proofs.Page.Reachability
import NotePress.Proofs.Page.Mirrors
import NotePress.Proofs.Page.Independence
import NotePress.Proofs.Page.Frame
import NotePress.Proofs.Page.Twins
import NotePress.Proofs.Page.Answers
import NotePress.Proofs.Page.Steering
import NotePress.Proofs.Markup.LineBreaks
import NotePress.Proofs.Markup.Locality
import NotePress.Proofs.Markup.Subtrees
import NotePress.Proofs.Markup.Sections
import NotePress.Proofs.Markup.Shape
import NotePress.Proofs.Document.BlankLines
import NotePress.Proofs.Document.Readings
import NotePress.Proofs.Document.Wording
import NotePress.Proofs.Markup.Derivation
import NotePress.Proofs.Markup.Layout
import NotePress.Proofs.Markup.Productions
import NotePress.Proofs.Markup.Members
import NotePress.Proofs.Markup.Tokens
import NotePress.Proofs.Markup.TreeGrammar
import NotePress.Proofs.Text.Trimming
import NotePress.Proofs.Text.Captured
import NotePress.Proofs.Document.Malformations
import NotePress.Proofs.Document.WellFormed
import NotePress.Proofs.Markup.Lookahead
import NotePress.Proofs.Markup.Refilling
import NotePress.Proofs.Markup.RefilledLines
import NotePress.Proofs.Markup.RawContent
import NotePress.Proofs.Markup.LineEndings
import NotePress.Proofs.Document.LineEndings
import NotePress.Proofs.Markup.FinalEnding
import NotePress.Proofs.Markup.OpenParagraphs
import NotePress.Proofs.Document.FinalLineBreak
import NotePress.Proofs.Disk.Additions
import NotePress.Proofs.Page.WrittenPaths
import NotePress.Proofs.Page.Failures
import NotePress.Proofs.Page.Chains
import NotePress.Proofs.Document.PlainText
import NotePress.Proofs.Document.Styles
import NotePress.Proofs.Document.StyledLines
import NotePress.Proofs.Page.Headings
import NotePress.Proofs.Markup.DoubledDelimiters
import NotePress.Proofs.Document.EmptySpans
import NotePress.Proofs.Markup.OpenDelimiters
import NotePress.Proofs.Document.TableRows
import NotePress.Proofs.Markup.LexedLines
import NotePress.Proofs.Document.CodeListings
import NotePress.Proofs.Document.WrittenHashtags
import NotePress.Proofs.Document.WrittenQuotations
import NotePress.Proofs.Page.FolderIndex
import NotePress.Proofs.Page.OrderedLines
import NotePress.Proofs.Page.OrderedItems
import NotePress.Proofs.Text.ByteOrder
import NotePress.Proofs.Disk.Folders
import NotePress.Proofs.Disk.Standing
import NotePress.Proofs.Page.FolderLinks
import NotePress.Proofs.Markup.MaximalMunch
import NotePress.Proofs.CommandLine.Arguments
import NotePress.Proofs.Markup.EventBlocks
import NotePress.Proofs.Markup.CursorRuns
import NotePress.Proofs.Markup.CursorSteps
import NotePress.Proofs.Markup.CursorRules
import NotePress.Proofs.Markup.CursorLines
import NotePress.Proofs.Markup.WrittenTrees
