import MonitoredCompile.Command
import MonitoredCompile.Inspection
import MonitoredCompile.Tool.Script
import MonitoredCompile.FileSystem.Walk
import MonitoredCompile.FileSystem.Upkeep
import MonitoredCompile.Proofs.Run.Background
import MonitoredCompile.Proofs.Run.Launch
import MonitoredCompile.Proofs.Run.Reach
import MonitoredCompile.Proofs.Arguments.Plain
import MonitoredCompile.Proofs.Run.Ledger
import MonitoredCompile.Proofs.Run.Commands
import MonitoredCompile.Proofs.Run.Output
import MonitoredCompile.Proofs.Run.Report
import MonitoredCompile.Proofs.FileSystem.Extends
import MonitoredCompile.Proofs.FileSystem.Shape
import MonitoredCompile.Proofs.FileSystem.Growth
import MonitoredCompile.Proofs.FileSystem.Free
import MonitoredCompile.Proofs.FileSystem.Copy
import MonitoredCompile.Proofs.FileSystem.Move
import MonitoredCompile.Proofs.Run.Staging
import MonitoredCompile.Proofs.FileSystem.Sibling
import MonitoredCompile.Proofs.Run.Capture
import MonitoredCompile.Proofs.Run.Places
import MonitoredCompile.Proofs.Run.Streams
import MonitoredCompile.Proofs.Arguments.Partition
import MonitoredCompile.Proofs.Run.Outcome
import MonitoredCompile.Proofs.Log.Destination
import MonitoredCompile.Proofs.Run.Detection
import MonitoredCompile.Proofs.Arguments.Grammar
import MonitoredCompile.Proofs.Run.History
import MonitoredCompile.Proofs.Arguments.Inclusion
import MonitoredCompile.Proofs.Run.Preservation
import MonitoredCompile.Proofs.FileSystem.Contents
import MonitoredCompile.Proofs.FileSystem.Exchange
import MonitoredCompile.Proofs.FileSystem.Named
import MonitoredCompile.Proofs.Run.CurrentDir
import MonitoredCompile.Proofs.Run.Delivery
import MonitoredCompile.Proofs.Run.Leftovers
import MonitoredCompile.Proofs.Run.Remainder
import MonitoredCompile.Proofs.Run.Configuration
import MonitoredCompile.Proofs.Inspection.Start
import MonitoredCompile.Proofs.Inspection.Verdict
import MonitoredCompile.Proofs.Run.Refusal
import MonitoredCompile.Proofs.Run.Freshness
import MonitoredCompile.Proofs.Run.Relocation
import MonitoredCompile.Proofs.Run.Redirection
import MonitoredCompile.Proofs.Log.Requests
import MonitoredCompile.Proofs.Run.Logging
import MonitoredCompile.Proofs.Arguments.Sweeps
import MonitoredCompile.Proofs.Run.Replay
import MonitoredCompile.Proofs.Run.Allocation
import MonitoredCompile.Proofs.Run.CleanUp
import MonitoredCompile.Proofs.Inspection.VersionText
import MonitoredCompile.Proofs.Inspection.Garbled
import MonitoredCompile.Proofs.Run.ReportLine
import MonitoredCompile.Proofs.Run.Resolution
