import Gcode.Demo
import Gcode.Main
import Gcode.Settings
import Gcode.Proofs.PhysicalLines
import Gcode.Proofs.Pieces
import Gcode.Proofs.Numbering
import Gcode.Proofs.Containment
import Gcode.Proofs.Sources
import Gcode.Proofs.Turns
import Gcode.Proofs.Notices
import Gcode.Proofs.Agreement
import Gcode.Proofs.Trace
import Gcode.Proofs.Tasks
import Gcode.Proofs.HostFaults
import Gcode.Proofs.Conduct
import Gcode.Proofs.Failure
import Gcode.Proofs.Steps
import Gcode.Proofs.Accounts
import Gcode.Proofs.Completion
import Gcode.Proofs.Apart
import Gcode.Proofs.Course
import Gcode.Proofs.Chunks
import Gcode.Proofs.Following
import Gcode.Proofs.Stages
import Gcode.Proofs.Interleaving
import Gcode.Proofs.Resolution
import Gcode.Proofs.Refusals
import Gcode.Proofs.Returning
import Gcode.Proofs.Unlogged
import Gcode.Proofs.Joining
import Gcode.Proofs.Background
import Gcode.Proofs.Lenient
import Gcode.Proofs.OnePass
import Gcode.Proofs.Recovery
import Gcode.Proofs.Releases
import Gcode.Proofs.WellFormed
import Gcode.Proofs.History
import Gcode.Proofs.Pipeline
import Gcode.Proofs.Grammar
import Gcode.Proofs.Recording
import Gcode.Proofs.Dispatching
import Gcode.Proofs.FailFast
import Gcode.Proofs.Lineage
import Gcode.Proofs.CommandTables
import Gcode.Proofs.Numerals
import Gcode.Proofs.Checksums
import Gcode.Proofs.Spelling
import Gcode.Proofs.NamedMethods
import Gcode.Proofs.Registrations
import Gcode.Proofs.OneShots
import Gcode.Proofs.Rounding
import Gcode.Proofs.WordValues
import Gcode.Proofs.CanonicalCodes
import Gcode.Proofs.ShortestText
import Gcode.Proofs.Printing
import Gcode.Proofs.TrailingComments
import Gcode.Proofs.SourceCounts
import Gcode.Proofs.LoadFaults
import Gcode.Proofs.ReadLoop
import Gcode.Proofs.Progress
import Gcode.Proofs.Grouping
import Gcode.Proofs.Moments
import Gcode.Proofs.LoadingStatus
