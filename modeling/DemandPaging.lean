import DemandPaging.Machine.Basic
import DemandPaging.Proofs.Blocks
import DemandPaging.Proofs.Ledger
import DemandPaging.Proofs.Bootstrap
import DemandPaging.Proofs.Survey
import DemandPaging.Proofs.UsableMemory
import DemandPaging.Proofs.Ending
import DemandPaging.Proofs.Moves
import DemandPaging.Proofs.Filling
import DemandPaging.Proofs.Copying
import DemandPaging.Proofs.Wandering
import DemandPaging.Proofs.Custody
import DemandPaging.Proofs.Handover
import DemandPaging.Proofs.Answering
import DemandPaging.Proofs.Ownership
import DemandPaging.Proofs.Duplication
import DemandPaging.Proofs.Views
import DemandPaging.Proofs.Transfers
import DemandPaging.Proofs.Image
import DemandPaging.Proofs.Faults
import DemandPaging.Proofs.Retaining
import DemandPaging.Proofs.Asides
import DemandPaging.Proofs.Isolation
import DemandPaging.Proofs.Turns
import DemandPaging.Proofs.Coherence
import DemandPaging.Proofs.Enforcement
import DemandPaging.Proofs.Rollback
import DemandPaging.Proofs.Residue
import DemandPaging.Proofs.Secrecy
import DemandPaging.Proofs.Schedules
import DemandPaging.Proofs.Outlooks
import DemandPaging.Proofs.Transparency
import DemandPaging.Proofs.Caching
import DemandPaging.Proofs.Atomicity
import DemandPaging.Proofs.ErrorCodes
import DemandPaging.Proofs.Stages
import DemandPaging.Proofs.Shortage
import DemandPaging.Proofs.Separation
import DemandPaging.Proofs.Gap
import DemandPaging.Proofs.Overlaps
import DemandPaging.Proofs.Ranges
import DemandPaging.Proofs.Staleness
import DemandPaging.Proofs.Tiling
import DemandPaging.Proofs.Census
import DemandPaging.Proofs.Placement
import DemandPaging.Proofs.Dealings
import DemandPaging.Proofs.Tenure
import DemandPaging.Proofs.ReadBack
import DemandPaging.Proofs.Provision
import DemandPaging.Proofs.Phases
import DemandPaging.Proofs.FirstFit
import DemandPaging.Proofs.Reservations
import DemandPaging.Proofs.Undoing
import DemandPaging.Proofs.Drawing
import DemandPaging.Proofs.Lifetimes
import DemandPaging.Proofs.Extents
import DemandPaging.Proofs.Launching
import DemandPaging.Proofs.Completion
import DemandPaging.Proofs.Stealing
import DemandPaging.Proofs.Aftermath
import DemandPaging.Proofs.FiniteMap
import DemandPaging.Proofs.BoundedMap
import DemandPaging.Proofs.Appending
