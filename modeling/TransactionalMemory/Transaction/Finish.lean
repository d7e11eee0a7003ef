import TransactionalMemory.Region.Collect
import TransactionalMemory.Transaction.Access

/-! # The end of a transaction

    A transaction commits if it was asked to, is not doomed, and every word it
    observed is still as it was. On commit, every word it wrote changes its
    valid copy, and the segments it freed are retired. Otherwise its words are
    given up, the segments it freed are back in use, and those it allocated are
    retired.

    Either way it then leaves the gate, is counted, and stops pinning its
    epoch. Ending a transaction also collects; abandoning one does not. -/

namespace TransactionalMemory.Transaction

/-- Whether every word that the transaction observed is still as it was. -/
def observationsHold (t : Transaction) (r : Region) : Bool :=
  t.observed.all fun o =>
    (r.segment? o.ref.segment).any fun s => s.stillValid t.id o.ref.word o.seq

/-- Makes the effects of the transaction permanent, in the order of the log. -/
def commit (t : Transaction) (r : Region) : Region :=
  let r := t.touched.foldr
    (fun ref r => r.updateSegment ref.segment fun s => s.commitWord t.id ref.word) r
  t.freed.foldr (fun slot r => r.retireFreed slot) r

/-- Undoes the effects of the transaction, in the order of the log. Segments that
    it both allocated and freed are put back first and then given up. -/
def rollback (t : Transaction) (r : Region) : Region :=
  let r := t.touched.foldr
    (fun ref r => r.updateSegment ref.segment fun s => s.releaseWord t.id ref.word) r
  let r := t.freed.foldr (fun slot r => { r with table := r.table.relink slot }) r
  t.allocated.foldr (fun slot r => r.retireAllocation slot) r

/-- Commits or undoes the transaction, and lets it leave the gate. -/
def conclude (t : Transaction) (r : Region) (wanted : Bool) : Bool × Region :=
  let committed := wanted && !t.doomed && t.observationsHold r
  let r := if committed then t.commit r else t.rollback r
  let r := { r with gate := r.gate.leave t.isReadOnly }
  (committed,
    if committed then { r with commits := r.commits + 1 } else { r with aborts := r.aborts + 1 })

/-- The transaction stops pinning its epoch. -/
def unpin (t : Transaction) (r : Region) : Region :=
  { r with collector := r.collector.unpin t.epoch }

/-- Ends the transaction, collects, and returns whether it committed. -/
def finish (t : Transaction) (r : Region) : Bool × Region :=
  let (committed, r) := t.conclude r true
  (committed, (t.unpin r).collect.2)

def abandon (t : Transaction) (r : Region) : Region := t.unpin (t.conclude r false).2

end TransactionalMemory.Transaction
