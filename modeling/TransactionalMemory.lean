import TransactionalMemory.Admission.Queue
import TransactionalMemory.Interface
import TransactionalMemory.Proofs.Admission.Waiting
import TransactionalMemory.Proofs.Interface.Calls
import TransactionalMemory.Proofs.Interface.Fate
import TransactionalMemory.Proofs.Reclaim.Attendance
import TransactionalMemory.Proofs.Reclaim.Custody
import TransactionalMemory.Proofs.Reclaim.Cutting
import TransactionalMemory.Proofs.Reclaim.Expiry
import TransactionalMemory.Proofs.Reclaim.Guards
import TransactionalMemory.Proofs.Reclaim.Participants
import TransactionalMemory.Proofs.Reclaim.Routines
import TransactionalMemory.Proofs.Region.Allocation
import TransactionalMemory.Proofs.Region.Arithmetic
import TransactionalMemory.Proofs.Region.Backing
import TransactionalMemory.Proofs.Region.Draining
import TransactionalMemory.Proofs.Region.Housing
import TransactionalMemory.Proofs.Region.Numbering
import TransactionalMemory.Proofs.Region.Occupancy
import TransactionalMemory.Proofs.Region.Release
import TransactionalMemory.Proofs.Region.Retention
import TransactionalMemory.Proofs.Region.Slots
import TransactionalMemory.Proofs.Region.Standing
import TransactionalMemory.Proofs.Region.Tenure
import TransactionalMemory.Proofs.Region.Timing
import TransactionalMemory.Proofs.Region.Words
import TransactionalMemory.Proofs.Segment.Cells
import TransactionalMemory.Proofs.Segment.Separation
import TransactionalMemory.Proofs.Session.Accounting
import TransactionalMemory.Proofs.Session.Admission
import TransactionalMemory.Proofs.Session.Books
import TransactionalMemory.Proofs.Session.Commutation
import TransactionalMemory.Proofs.Session.Conflicts
import TransactionalMemory.Proofs.Session.Contents
import TransactionalMemory.Proofs.Session.Continuity
import TransactionalMemory.Proofs.Session.Creation
import TransactionalMemory.Proofs.Session.Disjointness
import TransactionalMemory.Proofs.Session.Dooming
import TransactionalMemory.Proofs.Session.Draining
import TransactionalMemory.Proofs.Session.Effects
import TransactionalMemory.Proofs.Session.Extents
import TransactionalMemory.Proofs.Session.Failures
import TransactionalMemory.Proofs.Session.FreeConflicts
import TransactionalMemory.Proofs.Session.Grants
import TransactionalMemory.Proofs.Session.History
import TransactionalMemory.Proofs.Session.Invisibility
import TransactionalMemory.Proofs.Session.Likeness
import TransactionalMemory.Proofs.Session.Logs
import TransactionalMemory.Proofs.Session.LostRaces
import TransactionalMemory.Proofs.Session.Operations
import TransactionalMemory.Proofs.Session.Ownership
import TransactionalMemory.Proofs.Session.Preservation
import TransactionalMemory.Proofs.Session.Provision
import TransactionalMemory.Proofs.Session.Ranges
import TransactionalMemory.Proofs.Session.Readers
import TransactionalMemory.Proofs.Session.Readings
import TransactionalMemory.Proofs.Session.Reclamation
import TransactionalMemory.Proofs.Session.Refinement
import TransactionalMemory.Proofs.Session.Renumbering
import TransactionalMemory.Proofs.Session.Retrying
import TransactionalMemory.Proofs.Session.Rollback
import TransactionalMemory.Proofs.Session.Scripts
import TransactionalMemory.Proofs.Session.Serialization
import TransactionalMemory.Proofs.Session.Solitude
import TransactionalMemory.Proofs.Session.Soundness
import TransactionalMemory.Proofs.Session.StaleAddress
import TransactionalMemory.Proofs.Session.Steadiness
import TransactionalMemory.Proofs.Session.Tenancy
import TransactionalMemory.Proofs.Session.Territory
import TransactionalMemory.Proofs.Session.Verdicts
import TransactionalMemory.Proofs.Transaction.Barriers
import TransactionalMemory.Proofs.Transaction.Blindness
import TransactionalMemory.Proofs.Transaction.Conclusion
import TransactionalMemory.Proofs.Transaction.Coverage
import TransactionalMemory.Proofs.Transaction.Independence
import TransactionalMemory.Proofs.Transaction.Outcomes
import TransactionalMemory.Proofs.Transaction.Passes
import TransactionalMemory.Proofs.Transaction.Uncontested
import TransactionalMemory.Proofs.Word.Packing
import TransactionalMemory.Proofs.Word.Tagging
import TransactionalMemory.Reclaim.GuardedCollector
import TransactionalMemory.Session.Retry
import TransactionalMemory.Session.Run
import TransactionalMemory.TaggedPointer
