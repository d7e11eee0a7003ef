import Mathlib.Algebra.Group.Nat.Defs
import TransactionalMemory.Proofs.Reclaim.Expiry

/-! # Cutting is filtering

    What has expired is cut off the front of the queue, at a place that is found
    by bisection. A plain list from which the expired entries are picked one by
    one needs no order; the queue does, and it is kept:

    1. As long as stamps do not decrease, the queue is in the order of its stamps,
       followed by the stamps to come, whatever is taken out in between.
    2. In a queue in order the front that is cut off contains exactly the expired
       entries, so a cut answers and leaves what the plain list would.
    3. What a cut takes and what it leaves are together what was there. Over all
       uses, what was taken and what is left is what was pushed, in that order.
    4. Entries that expired earlier have expired later too, so a cut may be made
       in two steps. -/

namespace TransactionalMemory

variable {α : Type}

/-! ## Uses -/

inductive QueueUse (α : Type) where
  /-- A value is queued with the epoch that a word gives. -/
  | push (stamp : UInt64) (value : α)
  /-- What has expired when the global epoch is `now` is taken out. -/
  | take (now : Nat)
  deriving DecidableEq

namespace QueueUse

def adds : QueueUse α → List (Retired α)
  | push stamp value => [.inEpoch stamp.toNat value]
  | take _ => []

/-- The entries that are pushed, the first one first. -/
def pushed (uses : List (QueueUse α)) : List (Retired α) := uses.flatMap adds

/-- Stamps do not decrease, and two epochs after each of them there still is a word. -/
structure Orderly (uses : List (QueueUse α)) : Prop where
  ascending : (pushed uses).Pairwise fun x y => x.epoch ≤ y.epoch
  early : ∀ x ∈ pushed uses, x.epoch < 2 ^ 64 - 2

/-- What a use takes out of a plain list, and what it leaves: the list is filtered. -/
def filter (waiting : List (Retired α)) : QueueUse α → List (Retired α) × List (Retired α)
  | push stamp value => ([], waiting ++ [.inEpoch stamp.toNat value])
  | take now =>
    (waiting.filter fun x => x.epoch + 2 ≤ now, waiting.filter fun x => now < x.epoch + 2)

/-- What each of the uses takes out of a plain list, and what they leave. -/
def filtered (waiting : List (Retired α)) :
    List (QueueUse α) → List (List (Retired α)) × List (Retired α)
  | [] => ([], waiting)
  | u :: rest =>
    let (taken, left) := u.filter waiting
    let (later, left) := filtered left rest
    (taken :: later, left)

end QueueUse

/-- What has expired stays expired. -/
theorem Retired.expired_mono {x : Retired α} {now later : Nat} (hle : now ≤ later)
    (h : x.expired now = true) : x.expired later = true := by
  simp only [Retired.expired, decide_eq_true_eq] at h ⊢
  omega

namespace RetirementQueue

variable {q : RetirementQueue α} {u : QueueUse α} {uses : List (QueueUse α)} {now later : Nat}

/-- What a use takes out of the queue, and the queue after it. -/
def use (q : RetirementQueue α) : QueueUse α → List (Retired α) × RetirementQueue α
  | .push stamp value => ([], q.push (.stamped stamp value))
  | .take now => (q.expiredEntries now, q.dropExpired now)

/-- What each of the uses takes out of the queue, and the queue after them. -/
def run (q : RetirementQueue α) :
    List (QueueUse α) → List (List (Retired α)) × RetirementQueue α
  | [] => ([], q)
  | u :: rest =>
    let (taken, q) := q.use u
    let (later, q) := q.run rest
    (taken :: later, q)

/-! ## One cut -/

/-- In a queue in order, what is cut off is what has expired, -/
theorem expiredEntries_eq_filter (h : q.Sorted) (now : Nat) :
    q.expiredEntries now = q.entries.toList.filter (·.expired now) := by
  -- All that is cut off passes the filter, and nothing that is left does.
  have htaken : (q.expiredEntries now).filter (·.expired now) = q.expiredEntries now :=
    List.filter_eq_self.2 fun x hx => expired_of_mem_expiredEntries h hx
  have hleft : (q.dropExpired now).entries.toList.filter (·.expired now) = [] :=
    List.filter_eq_nil_iff.2 fun x hx => not_expired_of_mem_dropExpired h hx
  rw [← q.expiredEntries_append_dropExpired now, List.filter_append, htaken, hleft,
    List.append_nil]

/-- and what is left is what has not. -/
theorem dropExpired_eq_filter (h : q.Sorted) (now : Nat) :
    (q.dropExpired now).entries.toList = q.entries.toList.filter (!·.expired now) := by
  have htaken : (q.expiredEntries now).filter (!·.expired now) = [] :=
    List.filter_eq_nil_iff.2 fun x hx => by simp [expired_of_mem_expiredEntries h hx]
  have hleft : (q.dropExpired now).entries.toList.filter (!·.expired now)
      = (q.dropExpired now).entries.toList :=
    List.filter_eq_self.2 fun x hx => by simpa using not_expired_of_mem_dropExpired h hx
  rw [← q.expiredEntries_append_dropExpired now, List.filter_append, htaken, hleft,
    List.nil_append]

theorem dropExpired_sublist (q : RetirementQueue α) (now : Nat) :
    (q.dropExpired now).entries.toList.Sublist q.entries.toList := by
  rw [← q.expiredEntries_append_dropExpired now]
  exact List.sublist_append_right _ _

theorem Sorted.dropExpired (h : q.Sorted) (now : Nat) : (q.dropExpired now).Sorted :=
  h.sublist (q.dropExpired_sublist now)

/-! ## Two cuts -/

/-- What two cuts take is what the later one would have taken alone, -/
theorem expiredEntries_append_expiredEntries (h : q.Sorted) (hle : now ≤ later) :
    q.expiredEntries now ++ (q.dropExpired now).expiredEntries later = q.expiredEntries later := by
  have hearlier : (q.expiredEntries now).filter (·.expired later) = q.expiredEntries now :=
    List.filter_eq_self.2 fun x hx => Retired.expired_mono hle (expired_of_mem_expiredEntries h hx)
  calc q.expiredEntries now ++ (q.dropExpired now).expiredEntries later
    _ = (q.expiredEntries now).filter (·.expired later)
        ++ (q.dropExpired now).entries.toList.filter (·.expired later) := by
      rw [hearlier, expiredEntries_eq_filter (h.dropExpired now)]
    _ = q.entries.toList.filter (·.expired later) := by
      rw [← List.filter_append, q.expiredEntries_append_dropExpired now]
    _ = q.expiredEntries later := (expiredEntries_eq_filter h later).symm

/-- and so is what they leave. -/
theorem dropExpired_dropExpired (h : q.Sorted) (hle : now ≤ later) :
    (q.dropExpired now).dropExpired later = q.dropExpired later := by
  -- Both are what remains behind the same front of the queue.
  have hfront : q.expiredEntries later ++ ((q.dropExpired now).dropExpired later).entries.toList
      = q.expiredEntries later ++ (q.dropExpired later).entries.toList :=
    calc q.expiredEntries later ++ ((q.dropExpired now).dropExpired later).entries.toList
      _ = q.expiredEntries now ++ ((q.dropExpired now).expiredEntries later
          ++ ((q.dropExpired now).dropExpired later).entries.toList) := by
        rw [← expiredEntries_append_expiredEntries h hle, List.append_assoc]
      _ = q.entries.toList := by
        rw [expiredEntries_append_dropExpired, expiredEntries_append_dropExpired]
      _ = q.expiredEntries later ++ (q.dropExpired later).entries.toList :=
        (q.expiredEntries_append_dropExpired later).symm
  have hentries := Array.toList_inj.1 (List.append_cancel_left hfront)
  exact congrArg RetirementQueue.mk hentries

/-! ## Uses in order -/

/-- The entries of the queue are due two epochs after their stamps, and with the
    entries that are still to be pushed they are in the order of the stamps. -/
structure Awaits (q : RetirementQueue α) (uses : List (QueueUse α)) : Prop where
  due : ∀ x ∈ q.entries.toList, x.due = x.epoch + graceEpochs
  ascending : (q.entries.toList ++ QueueUse.pushed uses).Pairwise fun x y => x.epoch ≤ y.epoch
  early : ∀ x ∈ QueueUse.pushed uses, x.epoch < 2 ^ 64 - 2

theorem awaits_new (h : QueueUse.Orderly uses) : Awaits {} uses where
  due := fun _ hx => nomatch hx
  ascending := h.ascending
  early := h.early

namespace Awaits

variable {rest : List (QueueUse α)}

theorem sorted (h : q.Awaits uses) : q.Sorted := by
  obtain ⟨hqueue, -, -⟩ := List.pairwise_append.1 h.ascending
  refine hqueue.imp_of_mem fun hx hy hle => ?_
  rw [h.due _ hx, h.due _ hy]
  omega

/-- A cut takes what was retired two epochs before, -/
theorem takes (h : q.Awaits uses) (now : Nat) :
    q.expiredEntries now = q.entries.toList.filter fun x => x.epoch + 2 ≤ now := by
  rw [expiredEntries_eq_filter h.sorted]
  refine List.filter_congr fun x hx => ?_
  rw [Retired.expired, h.due x hx, graceEpochs]

/-- and leaves the rest. -/
theorem leaves (h : q.Awaits uses) (now : Nat) :
    (q.dropExpired now).entries.toList
      = q.entries.toList.filter fun x => now < x.epoch + 2 := by
  rw [dropExpired_eq_filter h.sorted]
  refine List.filter_congr fun x hx => ?_
  rw [Retired.expired, h.due x hx, graceEpochs, ← decide_not]
  exact decide_eq_decide.2 Nat.not_le

/-- A stamp that is low enough is an epoch like any other. -/
theorem stamped_eq {stamp : UInt64} {value : α} (h : q.Awaits (.push stamp value :: rest)) :
    Retired.stamped stamp value = .inEpoch stamp.toNat value := by
  have hearly : stamp.toNat < 2 ^ 64 - 2 := h.early _ List.mem_cons_self
  apply Retired.stamped_eq_inEpoch
  show stamp.toNat + 2 < 2 ^ 64
  omega

/-- What was in the queue and what a use adds is what it takes and what it leaves. -/
theorem taken_append_left (h : q.Awaits (u :: rest)) :
    (q.use u).1 ++ (q.use u).2.entries.toList = q.entries.toList ++ u.adds := by
  cases u with
  | push stamp value =>
    simp only [use, push, QueueUse.adds, h.stamped_eq, Array.toList_push, List.nil_append]
  | take now =>
    simp only [use, QueueUse.adds, List.append_nil]
    exact q.expiredEntries_append_dropExpired now

/-- What is left, followed by what is still to come, is a later part of the same
    list, so a use keeps the order. -/
theorem use (h : q.Awaits (u :: rest)) : (q.use u).2.Awaits rest := by
  have hlist := h.taken_append_left
  have hascending := h.ascending
  rw [QueueUse.pushed, List.flatMap_cons, ← List.append_assoc, ← hlist, List.append_assoc]
    at hascending
  constructor
  case due =>
    intro x hx
    -- What is left was there before, or it is what the use adds.
    have hmem : x ∈ q.entries.toList ++ u.adds := hlist ▸ List.mem_append_right _ hx
    rcases List.mem_append.1 hmem with hold | hnew
    · exact h.due x hold
    · cases u with
      | push stamp value => rw [List.mem_singleton.1 hnew]; rfl
      | take now => cases hnew
  case ascending => exact (List.pairwise_append.1 hascending).2.1
  case early =>
    intro x hx
    apply h.early
    rw [QueueUse.pushed, List.flatMap_cons]
    exact List.mem_append_right _ hx

/-- A use of the queue is the use of the plain list of its entries. -/
theorem use_eq_filter (h : q.Awaits (u :: rest)) :
    ((q.use u).1, (q.use u).2.entries.toList) = u.filter q.entries.toList := by
  cases u with
  | push stamp value =>
    simp only [RetirementQueue.use, push, QueueUse.filter, h.stamped_eq, Array.toList_push]
  | take now => simp only [RetirementQueue.use, QueueUse.filter, h.takes, h.leaves]

/-- So are all uses together, -/
theorem run_eq_filtered (h : q.Awaits uses) :
    ((q.run uses).1, (q.run uses).2.entries.toList)
      = QueueUse.filtered q.entries.toList uses := by
  induction uses generalizing q with
  | nil => rfl
  | cons u rest ih =>
    have hfirst := h.use_eq_filter
    have hrest := ih h.use
    simp only [RetirementQueue.run, QueueUse.filtered, ← hfirst, ← hrest]

/-- and what they take and leave is what was there and what they add. -/
theorem flatten_append_left (h : q.Awaits uses) :
    (q.run uses).1.flatten ++ (q.run uses).2.entries.toList
      = q.entries.toList ++ QueueUse.pushed uses := by
  induction uses generalizing q with
  | nil => simp [run, QueueUse.pushed]
  | cons u rest ih =>
    -- The first use has taken a front of the list, the others go on with the rest.
    have hrest := ih h.use
    simp only [RetirementQueue.run, List.flatten_cons, List.append_assoc, hrest]
    rw [← List.append_assoc, h.taken_append_left, List.append_assoc, QueueUse.pushed,
      QueueUse.pushed, List.flatMap_cons]

/-- After all uses nothing is to come. -/
theorem run (h : q.Awaits uses) : (q.run uses).2.Awaits [] := by
  induction uses generalizing q with
  | nil => exact h
  | cons u rest ih => exact ih h.use

end Awaits

/-- A queue that is cut as it should be. -/
structure Cuts (q : RetirementQueue α) : Prop where
  ascending : q.entries.toList.Pairwise fun x y => x.epoch ≤ y.epoch
  /-- A cut takes exactly what was retired two epochs before, in the order of the queue, -/
  takes : ∀ now, q.expiredEntries now = q.entries.toList.filter fun x => x.epoch + 2 ≤ now
  /-- and leaves exactly the rest, in that order. -/
  leaves : ∀ now,
    (q.dropExpired now).entries.toList = q.entries.toList.filter fun x => now < x.epoch + 2
  /-- It may be made in two steps. -/
  twice : ∀ now later, now ≤ later →
    q.expiredEntries now ++ (q.dropExpired now).expiredEntries later = q.expiredEntries later ∧
      (q.dropExpired now).dropExpired later = q.dropExpired later

theorem Awaits.cuts (h : q.Awaits uses) : q.Cuts where
  ascending := (List.pairwise_append.1 h.ascending).1
  takes := h.takes
  leaves := h.leaves
  twice := fun _ _ hle =>
    ⟨expiredEntries_append_expiredEntries h.sorted hle, dropExpired_dropExpired h.sorted hle⟩

/-- Whatever is pushed with stamps that do not decrease, and whenever something
    is taken out in between, the queue answers as a list that is filtered. What
    was taken and what is left is what was pushed, and the queue stays in order. -/
theorem run_filters {uses : List (QueueUse α)} (horderly : QueueUse.Orderly uses) :
    (run {} uses).1 = (QueueUse.filtered [] uses).1 ∧
      (run {} uses).2.entries.toList = (QueueUse.filtered [] uses).2 ∧
      (run {} uses).1.flatten ++ (run {} uses).2.entries.toList = QueueUse.pushed uses ∧
      (run {} uses).2.Cuts := by
  have hnew := awaits_new horderly
  have hfiltered := hnew.run_eq_filtered
  have hall := hnew.flatten_append_left
  exact ⟨congrArg Prod.fst hfiltered, congrArg Prod.snd hfiltered, hall, hnew.run.cuts⟩

/-- Values are pushed with the first epoch, the third and the last that has a word
    two epochs after it; cuts are made in no order. -/
def interleaved : List (QueueUse Nat) :=
  [.push 1 7, .push 1 8, .push 3 9, .take 4, .push 18446744073709551613 6, .take 0,
    .take 18446744073709551614, .take 18446744073709551615, .push 18446744073709551613 5]

/-- The entry with the last stamp waits for the last epoch, and the one pushed
    after the last cut is left. -/
theorem run_filters_interleaved :
    QueueUse.Orderly interleaved ∧
      (QueueUse.filtered [] interleaved).1.map (·.map (·.value))
        = [[], [], [], [7, 8], [], [], [9], [6], []] ∧
      (run {} interleaved).1 = (QueueUse.filtered [] interleaved).1 ∧
      (run {} interleaved).2.entries.toList.map (·.value) = [5] ∧
      (run {} interleaved).2.Cuts := by
  have horderly : QueueUse.Orderly interleaved := ⟨by decide, by decide⟩
  obtain ⟨htaken, hleft, -, hcuts⟩ := run_filters horderly
  refine ⟨horderly, by decide, htaken, ?_, hcuts⟩
  rw [hleft]
  decide

end RetirementQueue

end TransactionalMemory
