import SessionAttributes.Bytes
import SessionAttributes.Crc32
import SessionAttributes.WordHash
import SessionAttributes.Decimal.Binary64
import SessionAttributes.Decimal.Shortest
import SessionAttributes.Json.Basic
import SessionAttributes.Json.Printer
import SessionAttributes.Text.Invisible
import SessionAttributes.Text.Quoted
import SessionAttributes.Json.Fault
import SessionAttributes.Json.Token
import SessionAttributes.Json.Reader
import SessionAttributes.Json.Typed
import SessionAttributes.Dict
import SessionAttributes.Identifier
import SessionAttributes.Error
import SessionAttributes.Metadata
import SessionAttributes.Metrics
import SessionAttributes.Frame
import SessionAttributes.Immutability
import SessionAttributes.Store.Access
import SessionAttributes.Store.Options
import SessionAttributes.Store.Shard
import SessionAttributes.Store.Basic
import SessionAttributes.Store.Listeners
import SessionAttributes.Store.Registry
import SessionAttributes.Executor
import SessionAttributes.Bundle
import SessionAttributes.Procedure
import SessionAttributes.Index
import SessionAttributes.View
import SessionAttributes.Session
import SessionAttributes.World.Basic
import SessionAttributes.World.Call
import SessionAttributes.World.Operate
import SessionAttributes.Proofs.Executor.Crew
import SessionAttributes.Proofs.Executor.Ledger
import SessionAttributes.Proofs.Executor.Progress
import SessionAttributes.Proofs.Store.Tiers
import SessionAttributes.Proofs.Store.Contents
import SessionAttributes.Proofs.Store.Layout
import SessionAttributes.Proofs.Store.Accounts
import SessionAttributes.Proofs.Store.Refinement
import SessionAttributes.Proofs.Store.Moves
import SessionAttributes.Proofs.World.Reaction
import SessionAttributes.Proofs.World.Echo
import SessionAttributes.Proofs.Store.Replay
import SessionAttributes.Proofs.Store.Overhearing
import SessionAttributes.Proofs.Dict
import SessionAttributes.Proofs.Bundle
import SessionAttributes.Proofs.Json.Scanning
import SessionAttributes.Proofs.Json.RoundTrip
import SessionAttributes.Proofs.Crc32
import SessionAttributes.Proofs.Frame
import SessionAttributes.Proofs.World.Plain
import SessionAttributes.Proofs.World.Aloof
import SessionAttributes.Proofs.World.Wiring
import SessionAttributes.Proofs.World.Tasks
import SessionAttributes.Proofs.World.Cascade
import SessionAttributes.Proofs.World.Departure
import SessionAttributes.Proofs.World.Simulation
import SessionAttributes.Proofs.World.Opening
import SessionAttributes.Proofs.Procedure
import SessionAttributes.Proofs.World.Scope
import SessionAttributes.Proofs.View.Parts
import SessionAttributes.Proofs.View.Effects
import SessionAttributes.Proofs.World.Reach
import SessionAttributes.Proofs.Session.Loads
import SessionAttributes.Proofs.Session.Mirror
import SessionAttributes.Proofs.View.OnMap
import SessionAttributes.Proofs.World.Background
import SessionAttributes.Proofs.Session.Opened
import SessionAttributes.Proofs.Session.Verdict
import SessionAttributes.Proofs.Session.SingleView
import SessionAttributes.Proofs.Session.Ownership
import SessionAttributes.Proofs.Session.Stale
import SessionAttributes.Proofs.Session.Sharing
import SessionAttributes.Proofs.Session.Steady
import SessionAttributes.Proofs.Session.Waiting
import SessionAttributes.Proofs.Session.Overtaking
import SessionAttributes.Proofs.Session.Interleaving
import SessionAttributes.Proofs.Session.Upkeep
import SessionAttributes.Proofs.Session.Balance
import SessionAttributes.Proofs.Session.Overlap
import SessionAttributes.Proofs.Session.Handover
import SessionAttributes.Proofs.Session.Chronicle
import SessionAttributes.Proofs.Session.Reloading
import SessionAttributes.Proofs.Session.LastWrite
import SessionAttributes.Proofs.Session.Skipping
import SessionAttributes.Proofs.Session.Parallel
import SessionAttributes.Proofs.Session.Revival
import SessionAttributes.Proofs.Session.Errands
import SessionAttributes.Proofs.Session.Merging
import SessionAttributes.Proofs.Session.Lapses
import SessionAttributes.Proofs.Session.Strays
import SessionAttributes.Proofs.World.Lasting
import SessionAttributes.Proofs.World.Tally
import SessionAttributes.Proofs.Session.Counting
import SessionAttributes.Proofs.Session.Failing
import SessionAttributes.Proofs.Session.Contention
import SessionAttributes.Proofs.Session.Agreement
import SessionAttributes.Proofs.Session.Portion
import SessionAttributes.Proofs.Session.Apart
import SessionAttributes.Proofs.Session.Confluence
import SessionAttributes.Proofs.World.Transparency
import SessionAttributes.Proofs.World.Narrowing
import SessionAttributes.Proofs.World.Slices
import SessionAttributes.Proofs.World.Isolation
import SessionAttributes.Proofs.World.Journal
import SessionAttributes.Proofs.Session.Deletion
import SessionAttributes.Proofs.Store.Crossings
import SessionAttributes.Proofs.Store.Modes
import SessionAttributes.Proofs.Store.Recency
import SessionAttributes.Proofs.Store.Capacity
import SessionAttributes.Proofs.World.Turns
import SessionAttributes.Proofs.World.Relaying
import SessionAttributes.Proofs.View.Touches
import SessionAttributes.Proofs.View.Schedule
import SessionAttributes.Proofs.View.Conduct
import SessionAttributes.Proofs.View.Traffic
import SessionAttributes.Proofs.View.Integrity
import SessionAttributes.Proofs.World.Calling
import SessionAttributes.Proofs.World.Enrolment
import SessionAttributes.Proofs.World.Retirement
import SessionAttributes.Proofs.World.Impartial
import SessionAttributes.Proofs.World.Beside
import SessionAttributes.Proofs.World.Parting
import SessionAttributes.Proofs.World.Closing
import SessionAttributes.Script.IdBlock
import SessionAttributes.Script.Step
import SessionAttributes.Script.Scene
import SessionAttributes.Script.Run
import SessionAttributes.Script.Listening
import SessionAttributes.Script.Pool
import SessionAttributes.Toml.Quoted
import SessionAttributes.Toml.Document
import SessionAttributes.FactoryOptions
import SessionAttributes.Toml.Typed
import SessionAttributes.Toml.Printer
import SessionAttributes.Config
import SessionAttributes.Proofs.Toml.Quoted
import SessionAttributes.Proofs.Toml.Lines
import SessionAttributes.Proofs.Toml.Tables
import SessionAttributes.Proofs.Config
import SessionAttributes.Files
import SessionAttributes.Simulation
import SessionAttributes.Proofs.Simulation.Workload
import SessionAttributes.Proofs.Simulation.Stock
import SessionAttributes.Proofs.Simulation.Phases
import SessionAttributes.Proofs.Simulation.Report
import SessionAttributes.CommandLine.Arguments
import SessionAttributes.CommandLine.Run
import SessionAttributes.Proofs.CommandLine
import SessionAttributes.Main
import SessionAttributes.Proofs.Store.Delivery
