import TransactionalMemory.Proofs.Session.Operations

/-! # Extents of segments

    An address has 40 bits for the offset inside a segment, and no segment is
    larger than these can span. So an address that goes further inside a segment
    stays in the slot of the segment, and segments in different slots have no
    address in common. -/

namespace TransactionalMemory

namespace Address

/-- Going further, as far as the offsets reach, changes the offset alone. -/
theorem advance_inside {a : Address} {n : Nat} (h : a.offset + n < offsetSpan) :
    (a.advance n).slot? = a.slot? ∧ (a.advance n).offset = a.offset + n := by
  have hbits := a.bits.toNat_lt
  have hspan : offsetSpan = 1099511627776 := by decide
  have hsum : (a.advance n).bits.toNat = a.bits.toNat + n := by
    rw [advance, UInt64.toNat_add, UInt64.toNat_ofNat']
    rw [offset, hspan] at h
    omega
  have hdiv : (a.bits.toNat + n) / offsetSpan = a.bits.toNat / offsetSpan := by
    rw [offset, hspan] at h
    rw [hspan]
    omega
  constructor
  · rw [slot?, slot?, hsum, hdiv]
  · rw [offset, hsum]
    rw [offset, hspan] at h ⊢
    omega

end Address

namespace Region

variable {r r' : Region}

/-- No segment is larger than what an address can span. -/
def Spanned (r : Region) : Prop := ∀ n s, r.segment? n = some s → s.size ≤ maxSegmentBytes

/-- The segments are those that there were, each of the size that it had, or fewer. -/
theorem Spanned.of_sizes (h : r.Spanned)
    (hsizes : ∀ n s', r'.segment? n = some s' → ∃ s, r.segment? n = some s ∧ s.size = s'.size) :
    r'.Spanned := by
  intro n s' hs'
  obtain ⟨s, hs, hsize⟩ := hsizes n s' hs'
  rw [← hsize]
  exact h n s hs

theorem Spanned.of_layout (h : r.Spanned)
    (hlayout : ∀ n, (r'.segment? n).map Segment.layout = (r.segment? n).map Segment.layout) :
    r'.Spanned := by
  apply h.of_sizes
  intro n s' hs'
  have hsame := hlayout n
  rw [hs', Option.map_some, eq_comm, Option.map_eq_some_iff] at hsame
  obtain ⟨s, hs, heq⟩ := hsame
  exact ⟨s, hs, congrArg (fun l => l.2.1) heq⟩

theorem Spanned.congr (h : r.Spanned) (hsegments : r'.segments = r.segments) : r'.Spanned := by
  apply h.of_layout
  intro n
  rw [segment?, segment?, hsegments]

/-- An allocation checks the size first. -/
theorem Spanned.allocate (h : r.Spanned) {size i : Nat}
    (hgranted : r.allocate? size = some (i, r')) : r'.Spanned := by
  intro n s hs
  rw [(grows_of_allocate? hgranted).segment?_eq] at hs
  split at hs
  · cases hs
    exact (le_limits_of_allocate? hgranted).2
  · exact h n s hs

end Region

namespace Session

variable {orderly : Prop} {s s' start : Session} {events : History}

/-- Every effect keeps to what an address can span. -/
theorem spanned_effect (e : Effect orderly s events s') (h : s.region.Spanned) :
    s'.region.Spanned := by
  cases e with
  | began identified => exact h.congr (begins_enter identified).segments_eq
  | accessed isOpen readWrite found step =>
    obtain ⟨_, _, _, _, hbecomes, _⟩ := step.inv
    exact h.of_layout hbecomes.layout
  | doomed isOpen => exact h
  | allocated isOpen readWrite whole granted => exact h.allocate granted
  | missed fails =>
    obtain ⟨table, -, rfl⟩ := fails.inv
    exact h.congr rfl
  | freed isOpen readWrite live removable => exact h.congr rfl
  | ended isOpen valid gives => exact h.of_layout (Transaction.settles_conclusion ..).layout
  | collected =>
    apply h.of_sizes
    intro n seg hseg
    rcases s.region.drops_collect.segments n with heq | hnone
    · exact ⟨seg, heq ▸ hseg, rfl⟩
    · cases hnone.symm.trans hseg

theorem spanned_of_create {settings : Settings} (hcreate : create settings = .ok start) :
    start.region.Spanned := by
  obtain ⟨r, hregion, rfl⟩ := create_inv hcreate
  obtain ⟨-, i, hallocate⟩ := Region.create_inv hregion
  have hempty : Region.Spanned { settings } := by
    intro n s hs
    rw [Region.segment?_empty] at hs
    cases hs
  exact hempty.allocate hallocate

/-- After every run, every segment is spanned by the offsets of an address. -/
theorem spanned_run {settings : Settings} (hcreate : create settings = .ok start)
    (operations : List Operation) : (start.run operations).2.region.Spanned := by
  have heffects : Effects False start _ _ :=
    effects_record (steady_of_create hcreate) operations nofun
  exact heffects.keep (fun e h => spanned_effect e h) (spanned_of_create hcreate)

end Session

end TransactionalMemory
