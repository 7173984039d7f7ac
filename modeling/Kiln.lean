import Kiln.Main
import Kiln.Proofs.Memory.Arrays
import Kiln.Proofs.Source.Preservation
import Kiln.Proofs.Container.Block
import Kiln.Proofs.Container.Owners
import Kiln.Proofs.Container.Elements
import Kiln.Proofs.Container.Arrays
import Kiln.Proofs.Container.Items
import Kiln.Proofs.Machine.Orderly
import Kiln.Proofs.Typing.Standing
import Kiln.Proofs.Typing.Judgement
import Kiln.Proofs.Typing.Soundness
import Kiln.Proofs.Typing.Watching
import Kiln.Proofs.Typing.Units
import Kiln.Proofs.Workspace.Calls
import Kiln.Proofs.Workspace.Locals
import Kiln.Proofs.Workspace.Globals
import Kiln.Proofs.Memory.Sequences
import Kiln.Proofs.Memory.Requests
import Kiln.Proofs.Template.Filling
import Kiln.Proofs.Workspace.Failures
import Kiln.Proofs.Workspace.Unloading
import Kiln.Proofs.Workspace.Freed
import Kiln.Proofs.Project.Sessions
import Kiln.Proofs.Workspace.Isolation
import Kiln.Proofs.Tree.Slices
import Kiln.Proofs.Workspace.Holes
import Kiln.Proofs.Workspace.Dependencies
import Kiln.Proofs.Workspace.Reordering
import Kiln.Proofs.Workspace.Diagnostics
import Kiln.Proofs.Reload.Runs
import Kiln.Proofs.Reload.Failing
import Kiln.Proofs.Workspace.Storing
import Kiln.Proofs.Project.Distances
import Kiln.Proofs.Template.Words
import Kiln.Proofs.Machine.Depth
import Kiln.Proofs.Container.Declarable
import Kiln.Proofs.Template.Leftovers
import Kiln.Proofs.Workspace.Sizes
import Kiln.Proofs.Project.Naming
import Kiln.Proofs.Machine.Division
import Kiln.Proofs.Reload.Frames
import Kiln.Proofs.Tree.Symbols
import Kiln.Proofs.Lowering.Oversized
import Kiln.Proofs.Workspace.Regular
