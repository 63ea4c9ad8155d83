import FortigateDns.Proof.ApprovedApply
import FortigateDns.Proof.AuditSchedule
import FortigateDns.Proof.ClaimRecovery
import FortigateDns.Proof.ConfirmEvidence
import FortigateDns.Proof.DiscoveryScope
import FortigateDns.Proof.Executor
import FortigateDns.Proof.Fingerprints
import FortigateDns.Proof.InputOrder
import FortigateDns.Proof.Listing
import FortigateDns.Proof.LivePlan
import FortigateDns.Proof.MakeBeforeBreak
import FortigateDns.Proof.Outcomes
import FortigateDns.Proof.PersistedPlan
import FortigateDns.Proof.PlanNames
import FortigateDns.Proof.Prune
import FortigateDns.Proof.Revalidation
import FortigateDns.Proof.Revision
import FortigateDns.Proof.Router
import FortigateDns.Proof.TargetFairness
import FortigateDns.Proof.TargetQueue
import FortigateDns.Proof.Transport
