import Stencil.Cache
import Stencil.Decimal.Double
import Stencil.Decimal.Notation
import Stencil.Decimal.Shortest
import Stencil.Diagnostic
import Stencil.Directory
import Stencil.Error
import Stencil.Fields
import Stencil.FileTree
import Stencil.Foreign
import Stencil.Html
import Stencil.Json
import Stencil.Json.Fault
import Stencil.Json.Grammar
import Stencil.Json.Reader
import Stencil.Json.Writer
import Stencil.Learn
import Stencil.LiveView
import Stencil.Name
import Stencil.Options
import Stencil.Options.Json
import Stencil.Outline
import Stencil.Outline.Draft
import Stencil.Page
import Stencil.Path
import Stencil.Position
import Stencil.Proofs.Answering
import Stencil.Proofs.Brackets
import Stencil.Proofs.Caching
import Stencil.Proofs.Commuting
import Stencil.Proofs.Confinement
import Stencil.Proofs.Copy
import Stencil.Proofs.Dotted
import Stencil.Proofs.Faces
import Stencil.Proofs.Glyph
import Stencil.Proofs.Journal
import Stencil.Proofs.Lines
import Stencil.Proofs.Listing
import Stencil.Proofs.Lookup
import Stencil.Proofs.Markup
import Stencil.Proofs.Members
import Stencil.Proofs.Merging
import Stencil.Proofs.Nesting
import Stencil.Proofs.Numbering
import Stencil.Proofs.Opened
import Stencil.Proofs.Outcome
import Stencil.Proofs.Passage
import Stencil.Proofs.Place
import Stencil.Proofs.Publishing
import Stencil.Proofs.Reach
import Stencil.Proofs.Refusal
import Stencil.Proofs.Reordering
import Stencil.Proofs.Restriction
import Stencil.Proofs.Rewriting
import Stencil.Proofs.Scanned
import Stencil.Proofs.Segment
import Stencil.Proofs.Siblings
import Stencil.Proofs.Spelling
import Stencil.Proofs.Surroundings
import Stencil.Proofs.TagWord
import Stencil.Proofs.Trails
import Stencil.Proofs.Tree
import Stencil.Proofs.UniqueKeys
import Stencil.Proofs.Updates
import Stencil.Proofs.Walk
import Stencil.Render
import Stencil.Rendered
import Stencil.Resolution
import Stencil.SharedTemplate
import Stencil.Source
import Stencil.Store
import Stencil.Tag
import Stencil.Tag.Scan
import Stencil.Template
import Stencil.Text.Affix
import Stencil.Text.Bytes
import Stencil.Text.Digits
import Stencil.Text.Quoted
import Stencil.Text.Ranges
import Stencil.Text.Space
import Stencil.Text.Split
import Stencil.Text.Unprintable
import Stencil.Text.Utf8
import Stencil.Value
import Stencil.Proofs.Chained
import Stencil.Proofs.Chronology
import Stencil.Proofs.Current
import Stencil.Proofs.Compound
import Stencil.Proofs.Enclosing
import Stencil.Proofs.Asking
import Stencil.Proofs.Escaping
import Stencil.Proofs.Failing
import Stencil.Proofs.Joined
import Stencil.Proofs.Lowered
import Stencil.Proofs.PlainNames
import Stencil.Proofs.Respelled
import Stencil.Proofs.Requested
import Stencil.Proofs.LineNumbers
import Stencil.Proofs.Unbroken
import Stencil.Proofs.Entities
import Stencil.Proofs.Delimiters
import Stencil.Proofs.Gapless
