import ModelFeed.Entries
import ModelFeed.Feed.Connection
import ModelFeed.Feed.SharedModel
import ModelFeed.Filter.Listing
import ModelFeed.Filter.Matching
import ModelFeed.Filter.Parser
import ModelFeed.Filter.Token
import ModelFeed.Json.Basic
import ModelFeed.Json.Lexeme
import ModelFeed.Json.Mismatch
import ModelFeed.Json.Printer
import ModelFeed.Json.Reader
import ModelFeed.Json.Skipping
import ModelFeed.Lookup
import ModelFeed.Machine
import ModelFeed.Merge
import ModelFeed.Message.Basic
import ModelFeed.Message.Decoding
import ModelFeed.Node.Addressed
import ModelFeed.Node.Basic
import ModelFeed.Node.Items
import ModelFeed.Node.Rendering
import ModelFeed.Node.Structured
import ModelFeed.Number.Basic
import ModelFeed.Number.Binary64
import ModelFeed.Number.Numeral
import ModelFeed.Number.Shortest
import ModelFeed.Path
import ModelFeed.Projection
import ModelFeed.Proofs.Addresses
import ModelFeed.Proofs.Alteration
import ModelFeed.Proofs.Answering
import ModelFeed.Proofs.Canonical
import ModelFeed.Proofs.ChangeLog
import ModelFeed.Proofs.Confinement
import ModelFeed.Proofs.Convergence
import ModelFeed.Proofs.Describing
import ModelFeed.Proofs.Documents
import ModelFeed.Proofs.Everywhere
import ModelFeed.Proofs.Extracting
import ModelFeed.Proofs.FilterGrammar
import ModelFeed.Proofs.FilterLists
import ModelFeed.Proofs.Joining
import ModelFeed.Proofs.Keeping
import ModelFeed.Proofs.KeyedTree
import ModelFeed.Proofs.Keys
import ModelFeed.Proofs.Lasting
import ModelFeed.Proofs.Members
import ModelFeed.Proofs.MergeLaws
import ModelFeed.Proofs.Narrowing
import ModelFeed.Proofs.Notifying
import ModelFeed.Proofs.Numbering
import ModelFeed.Proofs.Part
import ModelFeed.Proofs.Patching
import ModelFeed.Proofs.Projecting
import ModelFeed.Proofs.Reaching
import ModelFeed.Proofs.Renderings
import ModelFeed.Proofs.Reordering
import ModelFeed.Proofs.Reprojecting
import ModelFeed.Proofs.RestrictedLookup
import ModelFeed.Proofs.Sameness
import ModelFeed.Proofs.Showing
import ModelFeed.Proofs.SubView
import ModelFeed.Proofs.Touching
import ModelFeed.Proofs.Trailing
import ModelFeed.Proofs.Traversal
import ModelFeed.Proofs.Unaffected
import ModelFeed.Proofs.Unordered
import ModelFeed.Proofs.WellFormed
import ModelFeed.Proofs.Widening
import ModelFeed.Proofs.Wildcards
import ModelFeed.Proofs.Wire
import ModelFeed.Proofs.WrittenPaths
import ModelFeed.Schema
import ModelFeed.Settings.Basic
import ModelFeed.Settings.Reader
import ModelFeed.Settings.ServerConfig
import ModelFeed.SocketAddress
import ModelFeed.Store
import ModelFeed.Subscription
import ModelFeed.Text.DecimalDigit
import ModelFeed.Text.Name
import ModelFeed.Text.Pieces
import ModelFeed.Text.Quoted
import ModelFeed.Text.Unprintable
