import GrowArena.Proofs.Growth
import GrowArena.Proofs.Leb128.Canonical
import GrowArena.Proofs.Leb128.Filling
import GrowArena.Proofs.Race.Ending
import GrowArena.Proofs.Race.Packed
import GrowArena.Proofs.Race.Typed
import GrowArena.Proofs.Workspace.Answers
import GrowArena.Proofs.Workspace.Counters
import GrowArena.Proofs.Workspace.Destruction
import GrowArena.Proofs.Workspace.Failure
import GrowArena.Proofs.Workspace.Growth
import GrowArena.Proofs.Workspace.Journal
import GrowArena.Proofs.Workspace.Memory
import GrowArena.Proofs.Workspace.Renewal
import GrowArena.Proofs.Workspace.Requests
import GrowArena.Proofs.Workspace.Story
