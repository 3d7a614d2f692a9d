import Uncomment.Disk.World
import Uncomment.Main
import Uncomment.Proofs.Lexical
import Uncomment.Proofs.Pieces
import Uncomment.Proofs.Braces
import Uncomment.Proofs.Simulation
import Uncomment.Proofs.Partition
import Uncomment.Proofs.JsxOption
import Uncomment.Proofs.Lines
import Uncomment.Proofs.Unique
import Uncomment.Proofs.Grammar
import Uncomment.Proofs.Reach
import Uncomment.Proofs.Frames
import Uncomment.Proofs.Positions
import Uncomment.Proofs.Lookahead
import Uncomment.Proofs.Contents
import Uncomment.Proofs.Paths
import Uncomment.Proofs.Places
import Uncomment.Proofs.Drafts
import Uncomment.Proofs.Outcomes
import Uncomment.Proofs.Batches
import Uncomment.Proofs.WellFormed
import Uncomment.Proofs.Walk
import Uncomment.Proofs.Footprint
import Uncomment.Proofs.Agreement
import Uncomment.Proofs.Tasks
import Uncomment.Proofs.Overlays
import Uncomment.Proofs.Shadows
import Uncomment.Proofs.Interleaving
import Uncomment.Proofs.LineEndings
import Uncomment.Proofs.TidyLines
import Uncomment.Proofs.Templates
import Uncomment.Proofs.Reader
import Uncomment.Proofs.Steady
import Uncomment.Proofs.Trimming
import Uncomment.Proofs.Retidying
import Uncomment.Proofs.SecondRun
import Uncomment.Proofs.Faults
import Uncomment.Proofs.Restart
import Uncomment.Proofs.Restripping
import Uncomment.Proofs.LiteralEnds
import Uncomment.Proofs.TidyForm
import Uncomment.Proofs.TidyReturns
import Uncomment.Proofs.LastWord
import Uncomment.Proofs.LoneSpans
import Uncomment.Proofs.LoneComments
import Uncomment.Proofs.PairedFeeds
import Uncomment.Proofs.Collecting
import Uncomment.Proofs.Offsets
import Uncomment.Proofs.LowerCase
import Uncomment.Proofs.WordLimit
import Uncomment.Proofs.Extensions
import Uncomment.Proofs.ByteSlices
import Uncomment.Proofs.ByteScan
import Uncomment.Proofs.ByteSteps
