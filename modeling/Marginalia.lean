import Marginalia.CommandLine
import Marginalia.CommandLine.Arguments
import Marginalia.CommandLine.Flag
import Marginalia.Configuration
import Marginalia.Failure
import Marginalia.FileTree
import Marginalia.FileTree.Change
import Marginalia.Highlight.Lexer
import Marginalia.Highlight.Markup
import Marginalia.Highlight.Rules
import Marginalia.Highlight.Token
import Marginalia.Journal
import Marginalia.Layout
import Marginalia.Layout.Builtin
import Marginalia.Main
import Marginalia.Markdown.Block
import Marginalia.Markdown.Code
import Marginalia.Markdown.Document
import Marginalia.Markdown.Element
import Marginalia.Markdown.Emphasis
import Marginalia.Markdown.Entity
import Marginalia.Markdown.Fence
import Marginalia.Markdown.Link
import Marginalia.Markdown.Mark
import Marginalia.Markdown.Options
import Marginalia.Markdown.RawHtml
import Marginalia.Markdown.Setup
import Marginalia.Markdown.Span
import Marginalia.Markdown.Table
import Marginalia.OptionFile
import Marginalia.Page
import Marginalia.Path
import Marginalia.Pattern
import Marginalia.Pipeline
import Marginalia.Script.Comment
import Marginalia.Script.Scanner
import Marginalia.Section
import Marginalia.Source
import Marginalia.Source.Walk
import Marginalia.Splitter
import Marginalia.Template.Parser
import Marginalia.Template.Render
import Marginalia.Template.Token
import Marginalia.Template.Tree
import Marginalia.Text.Blank
import Marginalia.Text.Case
import Marginalia.Text.CharTable
import Marginalia.Text.Chars
import Marginalia.Text.Decimal
import Marginalia.Text.Html
import Marginalia.Text.Quoted
import Marginalia.Text.Utf8
import Marginalia.Value
import Marginalia.World
import Marginalia.Yaml.Document
import Marginalia.Yaml.Node
import Marginalia.Yaml.Scalar
import Marginalia.Yaml.Scanner
import Marginalia.Yaml.Token
import Marginalia.Proofs.Configuration.Growth
import Marginalia.Proofs.Configuration.Resolve
import Marginalia.Proofs.FileTree.WellFormed
import Marginalia.Proofs.FileTree.Locate
import Marginalia.Proofs.FileTree.Leads
import Marginalia.Proofs.FileTree.Edits
import Marginalia.Proofs.FileTree.Writes
import Marginalia.Proofs.FileTree.Growth
import Marginalia.Proofs.FileTree.Replay
import Marginalia.Proofs.FileTree.Below
import Marginalia.Proofs.FileTree.Fresh
import Marginalia.Proofs.Layout.Builtin
import Marginalia.Proofs.Page.Reads
import Marginalia.Proofs.Page.Links
import Marginalia.Proofs.Path.Lexical
import Marginalia.Proofs.Path.Absolute
import Marginalia.Proofs.Pipeline.Steps
import Marginalia.Proofs.Pipeline.Start
import Marginalia.Proofs.Pipeline.Parse
import Marginalia.Proofs.Pipeline.Effects
import Marginalia.Proofs.Pipeline.Publish
import Marginalia.Proofs.Pipeline.Again
import Marginalia.Proofs.Pipeline.Journal
import Marginalia.Proofs.Pipeline.Pages
import Marginalia.Proofs.Pipeline.Links
import Marginalia.Proofs.Script.Marks
import Marginalia.Proofs.Script.Coverage
import Marginalia.Proofs.Section.Coverage
import Marginalia.Proofs.Section.Tiles
import Marginalia.Proofs.Section.Tabs
import Marginalia.Proofs.Source.Tour
import Marginalia.Proofs.Source.Pages
import Marginalia.Proofs.Source.Names
import Marginalia.Proofs.Source.Collisions
import Marginalia.Proofs.Source.Growth
import Marginalia.Proofs.Template.Links
import Marginalia.Proofs.Text.Lines
import Marginalia.Proofs.FileTree.Refusal
import Marginalia.Proofs.Pipeline.Failures
import Marginalia.Proofs.CommandLine.Endings
import Marginalia.Proofs.Pipeline.Retry
import Marginalia.Proofs.FileTree.Descent
import Marginalia.Proofs.Source.Turns
import Marginalia.Proofs.Source.Common
import Marginalia.Proofs.Path.Respelled
import Marginalia.Proofs.Source.Reached
import Marginalia.Proofs.Pipeline.Index
import Marginalia.Proofs.Configuration.Names
import Marginalia.Proofs.Configuration.Silent
import Marginalia.Proofs.Pipeline.Silence
import Marginalia.Proofs.Source.Order
import Marginalia.Proofs.Text.Trim
import Marginalia.Proofs.Script.Description
import Marginalia.Proofs.Script.Written
import Marginalia.Proofs.Text.Markup
import Marginalia.Proofs.Highlight.Shown
import Marginalia.Proofs.Template.Parts
import Marginalia.Proofs.Layout.Pages
import Marginalia.Proofs.Page.Filled
import Marginalia.Proofs.Page.Names
import Marginalia.Proofs.Pattern.Reads
import Marginalia.Proofs.Markdown.Blocks
import Marginalia.Proofs.Markdown.Heading
import Marginalia.Proofs.Markdown.Blank
import Marginalia.Proofs.Markdown.Title
import Marginalia.Proofs.Page.Heading
import Marginalia.Proofs.Splitter.Loading
import Marginalia.Proofs.Splitter.Lookup
import Marginalia.Proofs.Splitter.Plugins
import Marginalia.Proofs.Text.Case
import Marginalia.Proofs.Splitter.Listing
import Marginalia.Proofs.Configuration.Precedence
import Marginalia.Proofs.FileTree.Mirror
import Marginalia.Proofs.Pipeline.Assets
