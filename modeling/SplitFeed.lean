import SplitFeed.Backend
import SplitFeed.Batch
import SplitFeed.CommandLine
import SplitFeed.Consumer
import SplitFeed.Decimal
import SplitFeed.Decimal.Nearest
import SplitFeed.Decimal.Shortest
import SplitFeed.Entries
import SplitFeed.Failure
import SplitFeed.Fetcher.Basic
import SplitFeed.Fetcher.Control
import SplitFeed.Fetcher.Step
import SplitFeed.FileReader
import SplitFeed.Gzip
import SplitFeed.Handoff.Dock
import SplitFeed.Handoff.Queue
import SplitFeed.Handoff.Relay
import SplitFeed.IdSet
import SplitFeed.Inflate
import SplitFeed.LineSource
import SplitFeed.Main
import SplitFeed.Pipeline
import SplitFeed.Proofs.Batch.Filtering
import SplitFeed.Proofs.Batch.Positions
import SplitFeed.Proofs.Batch.Walking
import SplitFeed.Proofs.Course
import SplitFeed.Proofs.Fetcher.Account
import SplitFeed.Proofs.Fetcher.Advance
import SplitFeed.Proofs.Fetcher.Assignment
import SplitFeed.Proofs.Fetcher.Custody
import SplitFeed.Proofs.Fetcher.Diary
import SplitFeed.Proofs.Fetcher.Dismissal
import SplitFeed.Proofs.Fetcher.Farewell
import SplitFeed.Proofs.Fetcher.GoingIdle
import SplitFeed.Proofs.Fetcher.Hearing
import SplitFeed.Proofs.Fetcher.Idle
import SplitFeed.Proofs.Fetcher.InFlight
import SplitFeed.Proofs.Fetcher.InStep
import SplitFeed.Proofs.Fetcher.Ledger
import SplitFeed.Proofs.Fetcher.Lineup
import SplitFeed.Proofs.Fetcher.Publication
import SplitFeed.Proofs.Fetcher.Removal
import SplitFeed.Proofs.Fetcher.Reporting
import SplitFeed.Proofs.Fetcher.Rest
import SplitFeed.Proofs.Fetcher.Rounds
import SplitFeed.Proofs.Fetcher.Station
import SplitFeed.Proofs.Fetcher.Suited
import SplitFeed.Proofs.Fetcher.Telling
import SplitFeed.Proofs.Fetcher.Tidy
import SplitFeed.Proofs.Fetcher.Weighing
import SplitFeed.Proofs.Handoff.Bells
import SplitFeed.Proofs.Handoff.Conservation
import SplitFeed.Proofs.Handoff.Moves
import SplitFeed.Proofs.Handoff.Parcels
import SplitFeed.Proofs.Handoff.Settling
import SplitFeed.Proofs.Handoff.Sleepers
import SplitFeed.Proofs.Handoff.WakeUps
import SplitFeed.Proofs.News
import SplitFeed.Proofs.Pipeline.Completion
import SplitFeed.Proofs.Pipeline.Consuming
import SplitFeed.Proofs.Pipeline.Draining
import SplitFeed.Proofs.Pipeline.Failures
import SplitFeed.Proofs.Pipeline.Finishing
import SplitFeed.Proofs.Pipeline.Journal
import SplitFeed.Proofs.Pipeline.Limiting
import SplitFeed.Proofs.Pipeline.Retuning
import SplitFeed.Proofs.Pipeline.Rounds
import SplitFeed.Proofs.Pipeline.Running
import SplitFeed.Proofs.Pipeline.Sending
import SplitFeed.Proofs.Pipeline.Shares
import SplitFeed.Proofs.Pipeline.Stages
import SplitFeed.Proofs.Pipeline.Traffic
import SplitFeed.Proofs.Pipeline.Waiting
import SplitFeed.Proofs.Reading.Absence
import SplitFeed.Proofs.Reading.Bouncing
import SplitFeed.Proofs.Reading.Buffering
import SplitFeed.Proofs.Reading.Ceilings
import SplitFeed.Proofs.Reading.Changes
import SplitFeed.Proofs.Reading.Counting
import SplitFeed.Proofs.Reading.Inventory
import SplitFeed.Proofs.Reading.Keeping
import SplitFeed.Proofs.Reading.Lending
import SplitFeed.Proofs.Reading.Lines
import SplitFeed.Proofs.Reading.Lineup
import SplitFeed.Proofs.Reading.Neat
import SplitFeed.Proofs.Reading.Outlook
import SplitFeed.Proofs.Reading.Pieces
import SplitFeed.Proofs.Reading.Progress
import SplitFeed.Proofs.Reading.Ready
import SplitFeed.Proofs.Reading.Recycling
import SplitFeed.Proofs.Reading.Removal
import SplitFeed.Proofs.Reading.Roll
import SplitFeed.Proofs.Reading.Session
import SplitFeed.Proofs.Reading.Undisturbed
import SplitFeed.Proofs.Report.Grouping
import SplitFeed.Proofs.Settings.Agreement
import SplitFeed.Proofs.Settings.Fields
import SplitFeed.Proofs.Settings.Knobs
import SplitFeed.Proofs.Settings.Order
import SplitFeed.Proofs.Settings.Partition
import SplitFeed.Proofs.Settings.Precedence
import SplitFeed.Proofs.Signal.Board
import SplitFeed.Proofs.Signal.Porch
import SplitFeed.Proofs.Signal.Rousing
import SplitFeed.Proofs.Supervisor.Attended
import SplitFeed.Proofs.Supervisor.Balance
import SplitFeed.Proofs.Supervisor.Calls
import SplitFeed.Proofs.Supervisor.Calm
import SplitFeed.Proofs.Supervisor.Crew
import SplitFeed.Proofs.Supervisor.Dealing
import SplitFeed.Proofs.Supervisor.Delivery
import SplitFeed.Proofs.Supervisor.FetcherBooks
import SplitFeed.Proofs.Supervisor.Floor
import SplitFeed.Proofs.Supervisor.Joining
import SplitFeed.Proofs.Supervisor.OnDuty
import SplitFeed.Proofs.Supervisor.Parting
import SplitFeed.Proofs.Supervisor.RoundRobin
import SplitFeed.Proofs.Supervisor.Serving
import SplitFeed.Proofs.Supervisor.Sound
import SplitFeed.Proofs.Supervisor.SplitBooks
import SplitFeed.Proofs.Supervisor.Staff
import SplitFeed.Proofs.Supervisor.Supplying
import SplitFeed.Proofs.Supervisor.Turns
import SplitFeed.Proofs.Supervisor.Workshop
import SplitFeed.RangeReader
import SplitFeed.Reader
import SplitFeed.Report.Figures
import SplitFeed.Report.Summary
import SplitFeed.Report.Table
import SplitFeed.Report.Totals
import SplitFeed.Settings.Basic
import SplitFeed.Settings.Complaint
import SplitFeed.Settings.Environment
import SplitFeed.Settings.Extract
import SplitFeed.Settings.Load
import SplitFeed.Settings.Record
import SplitFeed.Settings.Value
import SplitFeed.Signal
import SplitFeed.Sink
import SplitFeed.Split
import SplitFeed.Store
import SplitFeed.Supervisor
import SplitFeed.Text.Blank
import SplitFeed.Text.Cut
import SplitFeed.Text.Escaped
import SplitFeed.Text.Logged
import SplitFeed.Text.Quoted
import SplitFeed.Text.Scan
import SplitFeed.Text.Shape
import SplitFeed.Text.Utf8
import SplitFeed.Toml.Document
import SplitFeed.Toml.Lexeme
import SplitFeed.Toml.Node
import SplitFeed.Word
