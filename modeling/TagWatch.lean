import TagWatch.Client.Call
import TagWatch.Client.Challenge
import TagWatch.Client.Distribution
import TagWatch.Client.Endpoint
import TagWatch.Client.Hub
import TagWatch.Client.Link
import TagWatch.Client.Prepared
import TagWatch.Client.Status
import TagWatch.Client.Web
import TagWatch.CommandLine.Arguments
import TagWatch.CommandLine.Outcome
import TagWatch.Config.Paths
import TagWatch.Config.Settings
import TagWatch.Decision.Basic
import TagWatch.Decision.Decide
import TagWatch.Fetch.Fetch
import TagWatch.Fetch.Result
import TagWatch.Http.Host
import TagWatch.Http.Message
import TagWatch.Http.Network
import TagWatch.Http.Routes
import TagWatch.Http.Url
import TagWatch.Image.Container
import TagWatch.Image.Key
import TagWatch.Image.Reference
import TagWatch.Json.Basic
import TagWatch.Json.Printer
import TagWatch.Json.Reader
import TagWatch.Json.Record
import TagWatch.Json.Token
import TagWatch.Level
import TagWatch.Limit.Agenda
import TagWatch.Limit.Gate
import TagWatch.Limit.Lane
import TagWatch.Limit.Limiter
import TagWatch.Limit.Rate
import TagWatch.Limit.Workload
import TagWatch.Main
import TagWatch.Program
import TagWatch.Proofs.Decision.Scope
import TagWatch.Proofs.Version.Order
import TagWatch.Proofs.Version.Selection
import TagWatch.Registry.Error
import TagWatch.Registry.Name
import TagWatch.Run.Check
import TagWatch.Run.Configured
import TagWatch.Run.Context
import TagWatch.Run.Document
import TagWatch.Run.Metrics
import TagWatch.Run.Pool
import TagWatch.Run.Summary
import TagWatch.Table
import TagWatch.Text.Base64
import TagWatch.Text.Blank
import TagWatch.Text.Cut
import TagWatch.Text.Fixed
import TagWatch.Text.Numeral
import TagWatch.Text.Percent
import TagWatch.Version.Basic
import TagWatch.Version.Order
import TagWatch.Version.Prerelease
import TagWatch.Version.Selection
import TagWatch.Proofs.Limit.Gate
import TagWatch.Proofs.Limit.Moves
import TagWatch.Proofs.Limit.Workload
import TagWatch.Proofs.Limit.Tickets
import TagWatch.Proofs.Limit.Capacity
import TagWatch.Proofs.Limit.Window
import TagWatch.Proofs.Limit.Progress
import TagWatch.Proofs.Registry.Name
import TagWatch.Proofs.Limit.Agenda
import TagWatch.Proofs.Limit.Concern
import TagWatch.Proofs.Limit.Turn
import TagWatch.Proofs.Client.Directory
import TagWatch.Proofs.Fetch.Plan
import TagWatch.Proofs.Run.Job
import TagWatch.Proofs.Run.Pool
import TagWatch.Proofs.Client.Prepared
import TagWatch.Proofs.Run.Batch
import TagWatch.Proofs.Client.Paging
import TagWatch.Proofs.Client.Listing
import TagWatch.Proofs.Text.Dotted
import TagWatch.Proofs.Version.Spelling
import TagWatch.Proofs.Version.Sublist
import TagWatch.Proofs.Client.Query
import TagWatch.Proofs.Run.Instant
import TagWatch.Proofs.Fetch.Snapshot
import TagWatch.Proofs.Limit.Cancel
import TagWatch.Proofs.Limit.Numbers
import TagWatch.Proofs.Limit.Reasons
import TagWatch.Proofs.Limit.Session
import TagWatch.Proofs.Limit.Settle
import TagWatch.Proofs.Fetch.Protocol
import TagWatch.Proofs.Run.Interleaving
import TagWatch.Proofs.Run.Errands
import TagWatch.Proofs.Run.Inquiries
import TagWatch.Proofs.Run.Occasions
import TagWatch.Proofs.Run.Judging
import TagWatch.Proofs.Run.Accounting
import TagWatch.Proofs.Limit.Rename
import TagWatch.Proofs.Limit.View
import TagWatch.Proofs.Limit.Apart
import TagWatch.Proofs.Limit.Waiting
import TagWatch.Proofs.Limit.Share
import TagWatch.Proofs.Limit.Perform
import TagWatch.Proofs.Limit.Users
import TagWatch.Proofs.Limit.Isolation
import TagWatch.Proofs.Version.Adoption
import TagWatch.Proofs.Decision.Consistency
import TagWatch.Proofs.Run.Grouping
import TagWatch.Proofs.Fetch.Conversation
import TagWatch.Proofs.Run.Diary
import TagWatch.Proofs.Decision.Independence
import TagWatch.Proofs.Decision.Outside
import TagWatch.Proofs.Registry.Canonical
import TagWatch.Proofs.Client.Choice
import TagWatch.Proofs.Run.Fetched
import TagWatch.Proofs.Run.Prereleases
import TagWatch.Proofs.Run.Floating
import TagWatch.Proofs.Client.Hosts
import TagWatch.Proofs.Client.Credentials
import TagWatch.Proofs.Limit.Fairness
import TagWatch.Proofs.Version.Newest
import TagWatch.Proofs.Client.Address
import TagWatch.Proofs.Run.Operations
import TagWatch.Proofs.Run.History
import TagWatch.Proofs.Run.Sharing
import TagWatch.Proofs.Decision.Stored
import TagWatch.Proofs.Image.Rendering
import TagWatch.Proofs.Limit.Sleep
import TagWatch.Proofs.Version.Grammar
import TagWatch.Proofs.Version.Change
import TagWatch.Proofs.Version.Variant
import TagWatch.Proofs.Limit.Brisk
import TagWatch.Proofs.Limit.Alike
import TagWatch.Proofs.Limit.Counters
import TagWatch.Proofs.Limit.Clock
import TagWatch.Proofs.Limit.Delay
import TagWatch.Proofs.Client.Link
import TagWatch.Proofs.Client.Pages
import TagWatch.Proofs.Image.Spelling
import TagWatch.Proofs.Image.Official
import TagWatch.Proofs.Fetch.Hub
import TagWatch.Proofs.Run.Official
import TagWatch.Proofs.Run.Summary
import TagWatch.Proofs.Version.Suffix
import TagWatch.Proofs.Client.Challenge
import TagWatch.Proofs.Json.Number
import TagWatch.Proofs.Json.Literal
import TagWatch.Proofs.Json.Token
import TagWatch.Proofs.Json.Value
import TagWatch.Proofs.Json.Record
import TagWatch.Proofs.Config.Partial
import TagWatch.Proofs.Limit.Size
import TagWatch.Proofs.Config.Accepted
