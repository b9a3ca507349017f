import ViewTree.Application.Bare
import ViewTree.Application.Blueprint
import ViewTree.Application.Reader
import ViewTree.Application.Script
import ViewTree.Command
import ViewTree.Command.Line
import ViewTree.Component.Definition
import ViewTree.Component.Describe
import ViewTree.Component.Merge
import ViewTree.Component.Options
import ViewTree.Component.Ownership
import ViewTree.Decimal.Double
import ViewTree.Decimal.Shortest
import ViewTree.Dict
import ViewTree.Expr.Arguments
import ViewTree.Expr.Basic
import ViewTree.Expr.Parser
import ViewTree.Instance.Create
import ViewTree.Instance.Diagnostics
import ViewTree.Instance.Events
import ViewTree.Instance.Inject
import ViewTree.Instance.Lifecycle
import ViewTree.Instance.Props
import ViewTree.Instance.Render
import ViewTree.Instance.State
import ViewTree.Main
import ViewTree.Markup.Describe
import ViewTree.Markup.Entity
import ViewTree.Markup.Event
import ViewTree.Markup.Scan
import ViewTree.Markup.Tokenizer
import ViewTree.Name
import ViewTree.Platform
import ViewTree.Proofs.Component.Assets
import ViewTree.Proofs.Component.Caching
import ViewTree.Proofs.Component.Freshness
import ViewTree.Proofs.Component.Grouping
import ViewTree.Proofs.Component.HookOrder
import ViewTree.Proofs.Component.Hooks
import ViewTree.Proofs.Component.LateEdits
import ViewTree.Proofs.Component.Layers
import ViewTree.Proofs.Component.Ledger
import ViewTree.Proofs.Component.Lineage
import ViewTree.Proofs.Component.Operations
import ViewTree.Proofs.Component.Resolution
import ViewTree.Proofs.Component.Transparency
import ViewTree.Proofs.Component.UpToDate
import ViewTree.Proofs.Component.WatchTracking
import ViewTree.Proofs.Component.WatchedOnce
import ViewTree.Proofs.Component.Watchers
import ViewTree.Proofs.Expr.Blanks
import ViewTree.Proofs.Expr.Literals
import ViewTree.Proofs.Expr.Reporting
import ViewTree.Proofs.Expr.Rereading
import ViewTree.Proofs.Expr.RoundTrip
import ViewTree.Proofs.Expr.Splitting
import ViewTree.Proofs.Instance.Bookkeeping
import ViewTree.Proofs.Instance.Capturing
import ViewTree.Proofs.Instance.Destroying
import ViewTree.Proofs.Instance.Emissions
import ViewTree.Proofs.Instance.EventBus
import ViewTree.Proofs.Instance.Failing
import ViewTree.Proofs.Instance.Family
import ViewTree.Proofs.Instance.FamilyTree
import ViewTree.Proofs.Instance.Injecting
import ViewTree.Proofs.Instance.Links
import ViewTree.Proofs.Instance.NearestProvider
import ViewTree.Proofs.Instance.Noting
import ViewTree.Proofs.Instance.Observing
import ViewTree.Proofs.Instance.Preserving
import ViewTree.Proofs.Instance.Readback
import ViewTree.Proofs.Instance.Registrations
import ViewTree.Proofs.Instance.RemovedWatchers
import ViewTree.Proofs.Instance.SettingUp
import ViewTree.Proofs.Instance.Sightings
import ViewTree.Proofs.Instance.SlotContent
import ViewTree.Proofs.Instance.Supplies
import ViewTree.Proofs.Instance.Teardown
import ViewTree.Proofs.Instance.TornDown
import ViewTree.Proofs.Instance.Tracing
import ViewTree.Proofs.Instance.WatcherChains
import ViewTree.Proofs.Instance.WatcherEvents
import ViewTree.Proofs.Markup.Advancing
import ViewTree.Proofs.Markup.Comments
import ViewTree.Proofs.Markup.Contents
import ViewTree.Proofs.Markup.Entities
import ViewTree.Proofs.Markup.Extents
import ViewTree.Proofs.Markup.Flow
import ViewTree.Proofs.Markup.Hedges
import ViewTree.Proofs.Markup.ImpliedClosing
import ViewTree.Proofs.Markup.Nesting
import ViewTree.Proofs.Markup.Printer
import ViewTree.Proofs.Markup.RoundTrip
import ViewTree.Proofs.Markup.Scanning
import ViewTree.Proofs.Markup.Textarea
import ViewTree.Proofs.Markup.Unclosed
import ViewTree.Proofs.Name
import ViewTree.Proofs.SingleFile.Blocks
import ViewTree.Proofs.SingleFile.RoundTrip
import ViewTree.Proofs.SingleFile.Templates
import ViewTree.Proofs.Template.Attributes
import ViewTree.Proofs.Template.BagCalls
import ViewTree.Proofs.Template.Building
import ViewTree.Proofs.Template.Calls
import ViewTree.Proofs.Template.Checking
import ViewTree.Proofs.Template.Conditions
import ViewTree.Proofs.Template.DirectiveNames
import ViewTree.Proofs.Template.Dispatching
import ViewTree.Proofs.Template.Emission
import ViewTree.Proofs.Template.Entries
import ViewTree.Proofs.Template.Escaping
import ViewTree.Proofs.Template.Expansion
import ViewTree.Proofs.Template.FunctionCache
import ViewTree.Proofs.Template.Grouping
import ViewTree.Proofs.Template.Hoisting
import ViewTree.Proofs.Template.Interpolations
import ViewTree.Proofs.Template.KeptTexts
import ViewTree.Proofs.Template.Keywords
import ViewTree.Proofs.Template.Linking
import ViewTree.Proofs.Template.Located
import ViewTree.Proofs.Template.Loops
import ViewTree.Proofs.Template.Marking
import ViewTree.Proofs.Template.Numerals
import ViewTree.Proofs.Template.Opening
import ViewTree.Proofs.Template.Outlining
import ViewTree.Proofs.Template.Parts
import ViewTree.Proofs.Template.Passes
import ViewTree.Proofs.Template.Phrases
import ViewTree.Proofs.Template.Pieces
import ViewTree.Proofs.Template.Preformatted
import ViewTree.Proofs.Template.Pruning
import ViewTree.Proofs.Template.Receiving
import ViewTree.Proofs.Template.Recording
import ViewTree.Proofs.Template.Records
import ViewTree.Proofs.Template.Redirecting
import ViewTree.Proofs.Template.References
import ViewTree.Proofs.Template.Refusals
import ViewTree.Proofs.Template.Respelling
import ViewTree.Proofs.Template.Siblings
import ViewTree.Proofs.Template.Source
import ViewTree.Proofs.Template.Spans
import ViewTree.Proofs.Template.Spelling
import ViewTree.Proofs.Template.Styles
import ViewTree.Proofs.Template.Verbatim
import ViewTree.Proofs.Text.Separated
import ViewTree.Proofs.VNode.Coalescing
import ViewTree.Proofs.VNode.Distribution
import ViewTree.Proofs.VNode.Extraction
import ViewTree.Proofs.VNode.Modes
import ViewTree.Proofs.VNode.Namespaces
import ViewTree.Proofs.VNode.Normalizing
import ViewTree.Proofs.Value.Filling
import ViewTree.SingleFile
import ViewTree.Template.Attribute
import ViewTree.Template.Builder
import ViewTree.Template.Code
import ViewTree.Template.Compiler
import ViewTree.Template.Defaults
import ViewTree.Template.Describe
import ViewTree.Template.Generator
import ViewTree.Template.Interpolation
import ViewTree.Template.Lint
import ViewTree.Template.Loop
import ViewTree.Template.Reader
import ViewTree.Template.Settings
import ViewTree.Template.Static
import ViewTree.Template.Syntax
import ViewTree.Text.Blank
import ViewTree.Text.Case
import ViewTree.Text.Quoted
import ViewTree.Text.Ranges
import ViewTree.Text.Search
import ViewTree.Text.Word
import ViewTree.VNode.Basic
import ViewTree.VNode.Children
import ViewTree.VNode.Debug
import ViewTree.VNode.Describe
import ViewTree.VNode.Element
import ViewTree.VNode.Namespace
import ViewTree.VNode.Slots
import ViewTree.Value.Basic
import ViewTree.Value.Printer
import ViewTree.Value.Reader
import ViewTree.World
