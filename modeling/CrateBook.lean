import CrateBook.CommandLine.Arguments
import CrateBook.CommandLine.FileTree
import CrateBook.CommandLine.Run
import CrateBook.Configuration
import CrateBook.Conversion
import CrateBook.Decimal.Shortest
import CrateBook.Declaration
import CrateBook.Digest
import CrateBook.Docs.Fence
import CrateBook.Docs.Links
import CrateBook.Docs.Sanitize
import CrateBook.Export.Id
import CrateBook.Export.Index
import CrateBook.Export.Item
import CrateBook.Export.Payload
import CrateBook.Export.PayloadReader
import CrateBook.Export.Reader
import CrateBook.Export.Visibility
import CrateBook.Fault
import CrateBook.FilePath
import CrateBook.Impls
import CrateBook.Inclusion
import CrateBook.Json.Access
import CrateBook.Json.Reader
import CrateBook.Json.Syntax
import CrateBook.Json.Value
import CrateBook.Json.Writer
import CrateBook.Layout.Anchor
import CrateBook.Layout.Basic
import CrateBook.Layout.Names
import CrateBook.Layout.Plan
import CrateBook.Layout.Url
import CrateBook.Link
import CrateBook.Main
import CrateBook.Markdown
import CrateBook.Navigation.Basic
import CrateBook.Navigation.Sidebar
import CrateBook.Navigation.Site
import CrateBook.Note
import CrateBook.Options
import CrateBook.Page
import CrateBook.Page.Document
import CrateBook.Page.Module
import CrateBook.Page.Section
import CrateBook.Page.Writing
import CrateBook.Placement
import CrateBook.Proofs.Accounts
import CrateBook.Proofs.Addresses
import CrateBook.Proofs.Agreement
import CrateBook.Proofs.Ambiguity
import CrateBook.Proofs.Anchored
import CrateBook.Proofs.Anchors
import CrateBook.Proofs.Blocks
import CrateBook.Proofs.CanonicalMatches
import CrateBook.Proofs.Categories
import CrateBook.Proofs.Census
import CrateBook.Proofs.Completion
import CrateBook.Proofs.Compounds
import CrateBook.Proofs.Coverage
import CrateBook.Proofs.Decimals
import CrateBook.Proofs.Declared
import CrateBook.Proofs.DefaultLayers
import CrateBook.Proofs.Defines
import CrateBook.Proofs.Denotations
import CrateBook.Proofs.Destinations
import CrateBook.Proofs.DirectText
import CrateBook.Proofs.DocParts
import CrateBook.Proofs.Documented
import CrateBook.Proofs.Drawings
import CrateBook.Proofs.Enclosures
import CrateBook.Proofs.Endings
import CrateBook.Proofs.Entries
import CrateBook.Proofs.EqualFingerprints
import CrateBook.Proofs.ExportGate
import CrateBook.Proofs.Fences
import CrateBook.Proofs.Fingerprints
import CrateBook.Proofs.Flags
import CrateBook.Proofs.Fragments
import CrateBook.Proofs.GivenNames
import CrateBook.Proofs.Growth
import CrateBook.Proofs.Heights
import CrateBook.Proofs.Hidden
import CrateBook.Proofs.HiddenLinks
import CrateBook.Proofs.HiddenSections
import CrateBook.Proofs.IndexOrder
import CrateBook.Proofs.InternalLinks
import CrateBook.Proofs.Inventories
import CrateBook.Proofs.ItemSwaps
import CrateBook.Proofs.ListedMembers
import CrateBook.Proofs.Lookups
import CrateBook.Proofs.LowerCase
import CrateBook.Proofs.LowerPaths
import CrateBook.Proofs.Marks
import CrateBook.Proofs.MemberLinks
import CrateBook.Proofs.Members
import CrateBook.Proofs.Membership
import CrateBook.Proofs.Memories
import CrateBook.Proofs.Modes
import CrateBook.Proofs.NodeRuns
import CrateBook.Proofs.Nodes
import CrateBook.Proofs.Numerals
import CrateBook.Proofs.ObjectKeys
import CrateBook.Proofs.Offers
import CrateBook.Proofs.OptionPlaces
import CrateBook.Proofs.Ordinals
import CrateBook.Proofs.Outputs
import CrateBook.Proofs.OutwardReexports
import CrateBook.Proofs.Overlays
import CrateBook.Proofs.Overrides
import CrateBook.Proofs.Pages
import CrateBook.Proofs.Parameters
import CrateBook.Proofs.Placements
import CrateBook.Proofs.Plans
import CrateBook.Proofs.Predictions
import CrateBook.Proofs.Primaries
import CrateBook.Proofs.Quotes
import CrateBook.Proofs.Readable
import CrateBook.Proofs.Readings
import CrateBook.Proofs.Renames
import CrateBook.Proofs.Renderings
import CrateBook.Proofs.Reordering
import CrateBook.Proofs.Reprints
import CrateBook.Proofs.Rereading
import CrateBook.Proofs.Routes
import CrateBook.Proofs.SampleCrates
import CrateBook.Proofs.Scripts
import CrateBook.Proofs.Sections
import CrateBook.Proofs.Sessions
import CrateBook.Proofs.Shadowing
import CrateBook.Proofs.Shapes
import CrateBook.Proofs.SharedAnchors
import CrateBook.Proofs.Sheets
import CrateBook.Proofs.ShownMembers
import CrateBook.Proofs.Sidebars
import CrateBook.Proofs.Sites
import CrateBook.Proofs.Slugs
import CrateBook.Proofs.Spans
import CrateBook.Proofs.TableBars
import CrateBook.Proofs.Tables
import CrateBook.Proofs.Tags
import CrateBook.Proofs.Targets
import CrateBook.Proofs.Trimming
import CrateBook.Proofs.TypeSchema
import CrateBook.Proofs.Typeset
import CrateBook.Proofs.UnmarkedSteps
import CrateBook.Proofs.Urls
import CrateBook.Proofs.ValueEquality
import CrateBook.Report
import CrateBook.Session
import CrateBook.Setting.Basic
import CrateBook.Setting.Canonical
import CrateBook.Setting.Graph
import CrateBook.Setting.KeyOrder
import CrateBook.Setting.Members
import CrateBook.Setting.Merge
import CrateBook.Setting.Number
import CrateBook.Setting.Options
import CrateBook.Setting.Reader
import CrateBook.Setting.ScalarReader
import CrateBook.Setting.Time
import CrateBook.Site
import CrateBook.Table
import CrateBook.Text.Blank
import CrateBook.Text.Digit
import CrateBook.Text.Letter
import CrateBook.Text.Lines
import CrateBook.Text.Number
import CrateBook.Text.Printable
import CrateBook.Text.Quoted
import CrateBook.Text.Range
import CrateBook.Tree.Node
import CrateBook.Tree.Walk
import CrateBook.TypeText.Basic
import CrateBook.TypeText.Lifetime
import CrateBook.TypeText.Segment
import CrateBook.Yaml.Character
import CrateBook.Yaml.Cursor
import CrateBook.Yaml.Lexer
import CrateBook.Yaml.Node
import CrateBook.Yaml.Scalar
import CrateBook.Yaml.ScalarText
import CrateBook.Yaml.Token
import CrateBook.Yaml.Writer
