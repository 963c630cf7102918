import ScopeChain.Cell.Script
import ScopeChain.Scope.Teardown
import ScopeChain.Session.Run
import ScopeChain.Proofs.Chain
import ScopeChain.Proofs.Effect
import ScopeChain.Proofs.StackMirror
import ScopeChain.Proofs.Bracketing
import ScopeChain.Proofs.Forest
import ScopeChain.Proofs.DepthLimit
import ScopeChain.Proofs.Acyclicity
import ScopeChain.Proofs.Agreement
import ScopeChain.Proofs.NameIndependence
import ScopeChain.Proofs.Threads
import ScopeChain.Proofs.Separation
import ScopeChain.Proofs.Containment
import ScopeChain.Proofs.Bookkeeping
import ScopeChain.Proofs.Persistence
import ScopeChain.Proofs.Hygiene
import ScopeChain.Proofs.Holders
import ScopeChain.Proofs.Teardown
import ScopeChain.Proofs.EventLog
import ScopeChain.Proofs.Observers
import ScopeChain.Proofs.Splicing
import ScopeChain.Proofs.DebugText
import ScopeChain.Proofs.ClosureEntry
import ScopeChain.Proofs.ScopeCopies
import ScopeChain.Proofs.HostValues
import ScopeChain.Proofs.Aliases
import ScopeChain.Proofs.AssignmentLaws
import ScopeChain.Proofs.Members
import ScopeChain.Proofs.ScopeText
