import MarkupLens.Command.Arguments
import MarkupLens.Command.Run
import MarkupLens.Context.Basic
import MarkupLens.Context.Check
import MarkupLens.Context.Format
import MarkupLens.Context.OfFile
import MarkupLens.Context.OfJson
import MarkupLens.Decimal.Binary64
import MarkupLens.Decimal.Notation
import MarkupLens.Decimal.Shortest
import MarkupLens.Directive.Kind
import MarkupLens.Directive.Listing
import MarkupLens.Extract
import MarkupLens.Files
import MarkupLens.Json.Lexeme
import MarkupLens.Json.Printer
import MarkupLens.Json.Reader
import MarkupLens.Json.Value
import MarkupLens.Keyed
import MarkupLens.Main
import MarkupLens.Markup.Nesting
import MarkupLens.Markup.Tag
import MarkupLens.Markup.Token
import MarkupLens.Markup.Tree
import MarkupLens.Proofs.Markup.Cutting
import MarkupLens.Proofs.Text.Basic
import MarkupLens.Render.Basic
import MarkupLens.Render.Site
import MarkupLens.Render.Tag
import MarkupLens.Samples
import MarkupLens.Settings.Layers
import MarkupLens.Settings.Path
import MarkupLens.Settings.Value
import MarkupLens.Template
import MarkupLens.Text.Basic
import MarkupLens.Text.Blank
import MarkupLens.Text.Hidden
import MarkupLens.Text.Quoted
import MarkupLens.Text.Ranges
import MarkupLens.Text.Utf8
import MarkupLens.Text.Word
import MarkupLens.Toml.Document
import MarkupLens.Toml.Reader
import MarkupLens.Toml.Strings
import MarkupLens.Toml.Table
import MarkupLens.Toml.Value
import MarkupLens.Toml.Words
import MarkupLens.View.Format
import MarkupLens.View.Listing
import MarkupLens.View.Outline
import MarkupLens.Yaml.Block
import MarkupLens.Yaml.Character
import MarkupLens.Yaml.Lexeme
import MarkupLens.Yaml.Node
import MarkupLens.Yaml.Plain
import MarkupLens.Yaml.Printer
import MarkupLens.Yaml.Property
import MarkupLens.Yaml.Quoted
import MarkupLens.Yaml.Reader
import MarkupLens.Yaml.Scalar
import MarkupLens.Proofs.Markup.PlainTag
import MarkupLens.Proofs.Markup.Forest
import MarkupLens.Proofs.Markup.ForestTree
import MarkupLens.Proofs.Render.Evaluate
import MarkupLens.Proofs.Render.TagRewriting
import MarkupLens.Proofs.Render.Walk
import MarkupLens.Proofs.Render.Refinement
import MarkupLens.Proofs.Context.Depth
import MarkupLens.Proofs.Directive.Names
import MarkupLens.Proofs.Render.Regularity
import MarkupLens.Proofs.Render.Stability
import MarkupLens.Proofs.Context.Recovered
import MarkupLens.Proofs.Extract.Records
import MarkupLens.Proofs.Extract.Marks
import MarkupLens.Proofs.Extract.RoundTrip
import MarkupLens.Proofs.Markup.SelfClosing
import MarkupLens.Proofs.Markup.Scanning
import MarkupLens.Proofs.Markup.Boundary
import MarkupLens.Proofs.Render.Plans
import MarkupLens.Proofs.Render.EditedTag
import MarkupLens.Proofs.Render.ContentSites
import MarkupLens.Proofs.Extract.SingleMark
import MarkupLens.Proofs.Extract.ContentMarkers
import MarkupLens.Proofs.Extract.Reproduction
import MarkupLens.Proofs.Render.Expansion
import MarkupLens.Proofs.Render.Scopes
import MarkupLens.Proofs.Extract.AttributeOrder
import MarkupLens.Proofs.Render.Independence
import MarkupLens.Proofs.Text.ByteOrder
import MarkupLens.Proofs.Markup.Everywhere
import MarkupLens.Proofs.Extract.DocumentOrder
import MarkupLens.Proofs.Markup.Grammar
import MarkupLens.Proofs.Markup.Pairing
import MarkupLens.Proofs.Extract.StrayClose
import MarkupLens.Proofs.Render.Siblings
import MarkupLens.Proofs.Markup.Elements
import MarkupLens.Proofs.Markup.Visits
import MarkupLens.Proofs.Markup.WrittenTree
import MarkupLens.Proofs.Context.HostData
import MarkupLens.Proofs.Extract.FedBack
import MarkupLens.Proofs.Extract.Concatenation
import MarkupLens.Proofs.Json.Parts
import MarkupLens.Proofs.Yaml.Ordered
import MarkupLens.Proofs.Context.Offences
import MarkupLens.Proofs.Text.Slices
import MarkupLens.Proofs.Markup.TagBytes
import MarkupLens.Proofs.Markup.TagForms
import MarkupLens.Proofs.Markup.Matching
import MarkupLens.Proofs.Markup.Closing
import MarkupLens.Proofs.Markup.Fillers
import MarkupLens.Proofs.Render.QuickTest
import MarkupLens.Proofs.Extract.Formatting
import MarkupLens.Proofs.Markup.Excerpts
import MarkupLens.Proofs.Context.History
import MarkupLens.Proofs.Markup.Places
import MarkupLens.Proofs.View.Drawing
