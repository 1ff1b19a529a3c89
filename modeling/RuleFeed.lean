import RuleFeed.Agent
import RuleFeed.Binary64
import RuleFeed.Binary64.Rounding
import RuleFeed.Binary64.Scaling
import RuleFeed.Binary64.Truncation
import RuleFeed.Bootstrap
import RuleFeed.Category
import RuleFeed.Config
import RuleFeed.Config.Environment
import RuleFeed.Config.Load
import RuleFeed.Endpoint
import RuleFeed.Feed.DataId
import RuleFeed.Feed.Engine
import RuleFeed.Feed.Listener
import RuleFeed.Feed.Session
import RuleFeed.Feed.Settings
import RuleFeed.Feed.Start
import RuleFeed.Feed.Transport
import RuleFeed.Host
import RuleFeed.Host.Address
import RuleFeed.Host.Interface
import RuleFeed.Identity
import RuleFeed.Identity.Schedule
import RuleFeed.Json.Document
import RuleFeed.Json.Fault
import RuleFeed.Json.Node
import RuleFeed.Json.Numeral
import RuleFeed.Json.Scalar
import RuleFeed.Json.Shape
import RuleFeed.Json.Text
import RuleFeed.Json.Token
import RuleFeed.Json.Value
import RuleFeed.Json.Word
import RuleFeed.Proofs.Binary64.Finite
import RuleFeed.Proofs.Binary64.Rational
import RuleFeed.Proofs.Bootstrap
import RuleFeed.Proofs.Launch
import RuleFeed.Proofs.Feed.Gate
import RuleFeed.Proofs.Feed.Interleaving
import RuleFeed.Proofs.Feed.LastDocument
import RuleFeed.Proofs.Feed.Listener
import RuleFeed.Proofs.Feed.Reachable
import RuleFeed.Proofs.Feed.Readiness
import RuleFeed.Proofs.Feed.Registration
import RuleFeed.Proofs.Feed.Start
import RuleFeed.Proofs.Feed.Wait
import RuleFeed.Proofs.Json.Glyph
import RuleFeed.Proofs.Json.Kept
import RuleFeed.Proofs.Json.Members
import RuleFeed.Proofs.Json.Rewriting
import RuleFeed.Proofs.Json.Scan
import RuleFeed.Proofs.Json.Spelling
import RuleFeed.Proofs.Json.Tree
import RuleFeed.Proofs.Json.Writing
import RuleFeed.Proofs.Record.Batch
import RuleFeed.Proofs.Record.Breaker
import RuleFeed.Proofs.Record.HotSpot
import RuleFeed.Proofs.Record.Presentation
import RuleFeed.Proofs.Record.Shape
import RuleFeed.Proofs.Record.Threshold
import RuleFeed.Proofs.Record.Wire
import RuleFeed.Proofs.Rule.Equality
import RuleFeed.Proofs.Rule.Sound
import RuleFeed.Proofs.Session.Agreement
import RuleFeed.Proofs.Session.Race
import RuleFeed.Proofs.Session.Settled
import RuleFeed.Proofs.Session.Timeline
import RuleFeed.Proofs.Text.Decimal
import RuleFeed.Record
import RuleFeed.Record.Breaker
import RuleFeed.Record.Envelope
import RuleFeed.Record.Flow
import RuleFeed.Record.HotSpot
import RuleFeed.Record.System
import RuleFeed.Report
import RuleFeed.Report.Document
import RuleFeed.Rule
import RuleFeed.Rule.Breaker
import RuleFeed.Rule.Flow
import RuleFeed.Rule.HotSpot
import RuleFeed.Rule.System
import RuleFeed.Session.Promise
import RuleFeed.Session.Race
import RuleFeed.Text.Blank
import RuleFeed.Text.Decimal
import RuleFeed.Text.Digit
import RuleFeed.Text.Machine
import RuleFeed.Toml.Bare
import RuleFeed.Toml.Document
import RuleFeed.Toml.Statement
import RuleFeed.Toml.Token
import RuleFeed.Toml.Value
import RuleFeed.Proofs.Json.Ending
import RuleFeed.Proofs.Config.Layers
import RuleFeed.Proofs.Feed.WholeDocument
import RuleFeed.Proofs.Json.Positional
import RuleFeed.Proofs.Config.Shape
import RuleFeed.Proofs.ListForm
import RuleFeed.Proofs.Binary64.Exact
import RuleFeed.Proofs.Json.Writable
import RuleFeed.Proofs.Rule.RoundTrip
import RuleFeed.Proofs.Feed.Outcome
import RuleFeed.Proofs.Record.Partition
import RuleFeed.Proofs.Config.Merge
import RuleFeed.Proofs.Endpoint
import RuleFeed.Proofs.Feed.DataId
import RuleFeed.Proofs.Host
import RuleFeed.Proofs.Text.Blank
import RuleFeed.Proofs.Config.Part
import RuleFeed.Proofs.Config.Environment
import RuleFeed.Proofs.Json.Partial
import RuleFeed.Proofs.Config.Document
import RuleFeed.Proofs.Json.Opening
import RuleFeed.Proofs.Json.Place
import RuleFeed.Proofs.RepeatedMember
import RuleFeed.Proofs.Toml.Spelling
import RuleFeed.Proofs.Toml.Bare
import RuleFeed.Proofs.Toml.Scan
import RuleFeed.Proofs.Toml.Statement
import RuleFeed.Proofs.Toml.Draft
import RuleFeed.Proofs.Toml.Agreement
import RuleFeed.Proofs.Config.Format
import RuleFeed.Proofs.Binary64.Saturation
import RuleFeed.Proofs.Binary64.Order
import RuleFeed.Proofs.Binary64.Nearest
import RuleFeed.Proofs.Record.TriggerCount
