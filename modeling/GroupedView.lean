import GroupedView.Describe
import GroupedView.Options.File
import GroupedView.Proofs.AcceptedMappings
import GroupedView.Proofs.Accessors
import GroupedView.Proofs.Backtracking
import GroupedView.Proofs.Batch.Log
import GroupedView.Proofs.Batch.Recast
import GroupedView.Proofs.Batch.Reordering
import GroupedView.Proofs.Calls
import GroupedView.Proofs.CanonicalForm
import GroupedView.Proofs.Consumed
import GroupedView.Proofs.FewestEdits
import GroupedView.Proofs.Guards
import GroupedView.Proofs.Joining
import GroupedView.Proofs.Minimize
import GroupedView.Proofs.Noninterference
import GroupedView.Proofs.PartnerHistory
import GroupedView.Proofs.Reentrancy
import GroupedView.Proofs.ReorderedEdits
import GroupedView.Proofs.Replay
import GroupedView.Proofs.View.Hint
import GroupedView.Proofs.View.Neighbours
import GroupedView.Proofs.View.StaleKeys
import GroupedView.Rule.Fault
import GroupedView.Rule.Predicate
import GroupedView.Sample
import GroupedView.View.Check
