import ActionPolicy.Cache.Basic
import ActionPolicy.Cache.Calls
import ActionPolicy.Cache.Codec
import ActionPolicy.Cache.Config
import ActionPolicy.Cache.Functions
import ActionPolicy.Cache.Layer
import ActionPolicy.Cache.Metrics
import ActionPolicy.Cache.Session
import ActionPolicy.Cache.Store
import ActionPolicy.Cache.SweepTasks
import ActionPolicy.Cache.Sweeper
import ActionPolicy.CacheKey
import ActionPolicy.CommandLine.Invocation
import ActionPolicy.CommandLine.Option
import ActionPolicy.CommandLine.Settings
import ActionPolicy.Conditions
import ActionPolicy.Context
import ActionPolicy.Decimal.Binary64
import ActionPolicy.Decimal.Shortest
import ActionPolicy.Decision
import ActionPolicy.Dispatcher
import ActionPolicy.Document.Caches
import ActionPolicy.Document.Datum
import ActionPolicy.Document.Decisions
import ActionPolicy.Document.Decoded
import ActionPolicy.Document.Facts
import ActionPolicy.Document.Fault
import ActionPolicy.Document.Record
import ActionPolicy.Document.Requests
import ActionPolicy.Document.Rules
import ActionPolicy.Document.Source
import ActionPolicy.Document.Text
import ActionPolicy.Document.View
import ActionPolicy.Engine
import ActionPolicy.Engine.Session
import ActionPolicy.Engine.Watched
import ActionPolicy.FieldPermission
import ActionPolicy.FileTree
import ActionPolicy.Json.Basic
import ActionPolicy.Json.Numeral
import ActionPolicy.Json.Reader
import ActionPolicy.Json.Text
import ActionPolicy.Main
import ActionPolicy.Named
import ActionPolicy.Namespace
import ActionPolicy.PriorityTable
import ActionPolicy.Request
import ActionPolicy.Resolve
import ActionPolicy.RuleTable.Basic
import ActionPolicy.RuleTable.Builtin
import ActionPolicy.RuleTable.Source
import ActionPolicy.TableWatcher
import ActionPolicy.Template
import ActionPolicy.Text.Blank
import ActionPolicy.Text.Octets
import ActionPolicy.Text.Quoted
import ActionPolicy.Text.Unprintable
import ActionPolicy.Time.Duration
import ActionPolicy.Time.Instant
import ActionPolicy.Yaml.Glyph
import ActionPolicy.Yaml.Node
import ActionPolicy.Yaml.Part
import ActionPolicy.Yaml.Scalar.Block
import ActionPolicy.Yaml.Scalar.Gap
import ActionPolicy.Yaml.Scalar.Plain
import ActionPolicy.Yaml.Scalar.Quoted
import ActionPolicy.Yaml.Tag
import ActionPolicy.Yaml.Token
import ActionPolicy.Yaml.Token.Lexer
import ActionPolicy.Yaml.Token.Tag
import ActionPolicy.Yaml.Value
import ActionPolicy.Proofs.Cache.Order
import ActionPolicy.Proofs.Cache.Records
import ActionPolicy.Proofs.Cache.PlainCache
import ActionPolicy.Proofs.Cache.Refinement
import ActionPolicy.Proofs.Cache.Invariant
import ActionPolicy.Proofs.Resolve.StableOrder
import ActionPolicy.Proofs.Resolve.Loosening
import ActionPolicy.Proofs.Resolve.Extension
import ActionPolicy.Proofs.Json.RoundTrip
import ActionPolicy.Proofs.Document.Records
import ActionPolicy.Proofs.Document.Decisions
import ActionPolicy.Proofs.Cache.Contents
import ActionPolicy.Proofs.Cache.Encoded
import ActionPolicy.Proofs.Engine.Session
import ActionPolicy.Proofs.Engine.Transparency
import ActionPolicy.Proofs.Cache.Freshness
import ActionPolicy.Proofs.Cache.Eviction
import ActionPolicy.Proofs.Cache.Inclusion
import ActionPolicy.Proofs.Cache.Sequential
import ActionPolicy.Proofs.Cache.Independence
import ActionPolicy.Proofs.Cache.Provenance
import ActionPolicy.Proofs.Engine.Publication
import ActionPolicy.Proofs.Engine.Invalidation
import ActionPolicy.Proofs.Engine.Operations
import ActionPolicy.Proofs.Engine.Compression
import ActionPolicy.Proofs.Dispatch.Offered
import ActionPolicy.Proofs.Cache.Balance
import ActionPolicy.Proofs.Cache.Warmth
import ActionPolicy.Proofs.Engine.Calls
import ActionPolicy.Proofs.Engine.Warmth
import ActionPolicy.Proofs.RuleTable.FirstFault
import ActionPolicy.Proofs.Json.Data
import ActionPolicy.Proofs.Document.Acceptance
import ActionPolicy.Proofs.Document.Templates
import ActionPolicy.Proofs.Json.Ordered
import ActionPolicy.Proofs.Document.WireTypes
import ActionPolicy.Proofs.FieldPermission.Combination
import ActionPolicy.Proofs.Time.Later
import ActionPolicy.Proofs.Cache.Expiry
import ActionPolicy.Proofs.Dispatch.Checks
import ActionPolicy.Proofs.RuleTable.Composition
import ActionPolicy.Proofs.FieldPermission.Merged
import ActionPolicy.Proofs.Cache.Entities
import ActionPolicy.Proofs.Cache.Functions
import ActionPolicy.Proofs.Cache.SweepTasks
import ActionPolicy.Proofs.Cache.SweeperLife
import ActionPolicy.Proofs.Cache.Removals
import ActionPolicy.Proofs.Engine.Removals
import ActionPolicy.Proofs.Document.Keys
import ActionPolicy.Proofs.RuleTable.Strictness
import ActionPolicy.Proofs.Cache.Exposition
import ActionPolicy.Proofs.Cache.Latency
import ActionPolicy.Proofs.CommandLine.Given
import ActionPolicy.Proofs.CommandLine.Report
