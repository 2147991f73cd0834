import Blockwise.Service
import Blockwise.Proofs.Program.Depth
import Blockwise.Proofs.Program.Reading
import Blockwise.Proofs.Program.Flatten
import Blockwise.Proofs.Program.Agreement
import Blockwise.Proofs.Program.Deletion
import Blockwise.Proofs.Character.Tally
import Blockwise.Proofs.Run.Errors
import Blockwise.Proofs.Run.Resume
import Blockwise.Proofs.Run.Criterion
import Blockwise.Proofs.Run.Reach
import Blockwise.Proofs.Run.Unroll
import Blockwise.Proofs.Run.FinalState
import Blockwise.Proofs.Run.Dependence
import Blockwise.Proofs.Run.HeadStart
import Blockwise.Proofs.Run.Length
import Blockwise.Proofs.Run.Replay
import Blockwise.Proofs.Workspace.Scope
import Blockwise.Proofs.Workspace.Editing
import Blockwise.Proofs.Workspace.Hydration
import Blockwise.Proofs.Workspace.Session
import Blockwise.Proofs.Workspace.Identity
import Blockwise.Proofs.Json.Lenient
import Blockwise.Proofs.Workspace.Rehydration
import Blockwise.Proofs.Workspace.Repair
import Blockwise.Proofs.Challenge.Report
import Blockwise.Proofs.Challenge.Lasting
import Blockwise.Proofs.Challenge.Exact
import Blockwise.Proofs.Workspace.Layout
import Blockwise.Proofs.Workspace.Landing
import Blockwise.Proofs.Workspace.Changes
import Blockwise.Proofs.Workspace.Removal
