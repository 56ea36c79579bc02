import HpcProfiler.ActivityDelivery
import HpcProfiler.CorrelationSound

/-!
What the correlator can make of the layer's events. Explicit copies and kernels are
reported without addresses, so of all that a reader has been given only a migration of
unified memory can be matched with an allocation by its address.
-/

namespace HpcProfiler.ActivityCorrelation

open Events GpuEncoder GpuRoundTrip Correlation CorrelationSound ActivityRecords ActivityDelivery
  StepSystem

/-- The records of pages that move between host and device. -/
def Migration (c : UnifiedMemoryCounter2) : Prop :=
  c.counterKind = .bytesTransferHtod ∨ c.counterKind = .bytesTransferDtoh

theorem eventOf_dstAddress {layer : CuptiLayer} {mem : MemInfo} {record : Activity}
    {ev : GpuEventData} (h : eventOf layer mem record = some ev) : ev.dstAddress = 0 := by
  cases record with
  | memcpy r =>
    cases h
    rfl
  | unifiedMemoryCounter r =>
    change counterEvent layer mem r = some ev at h
    unfold counterEvent at h
    split at h
    case h_5 => cases h
    all_goals
      cases h
      rfl
  | concurrentKernel r =>
    cases h
    rfl
  | other => cases h

/-- A transfer with an address is a migration of the page at that address. -/
theorem eventOf_srcAddress {layer : CuptiLayer} {mem : MemInfo} {record : Activity}
    {ev : GpuEventData} (h : eventOf layer mem record = some ev)
    (htype : ev.eventType = EVENT_TRANSFER) (haddr : ev.srcAddress ≠ 0) :
    ∃ c, record = .unifiedMemoryCounter c ∧ Migration c ∧ ev.srcAddress = c.address := by
  cases record with
  | memcpy r =>
    cases h
    exact absurd rfl haddr
  | unifiedMemoryCounter c =>
    change counterEvent layer mem c = some ev at h
    have hfault : ¬EVENT_PAGE_FAULT = EVENT_TRANSFER := by decide
    unfold counterEvent at h
    split at h
    · rename_i hkind
      cases h
      exact ⟨c, rfl, Or.inl hkind, rfl⟩
    · rename_i hkind
      cases h
      exact ⟨c, rfl, Or.inr hkind, rfl⟩
    · cases h
      exact absurd htype hfault
    · cases h
      exact absurd htype hfault
    · cases h
  | concurrentKernel r =>
    cases h
    exact absurd rfl haddr
  | other => cases h

theorem eventTypeName_transfer {code : UInt8} (h : eventTypeName code = "TRANSFER") :
    code = EVENT_TRANSFER := by
  unfold eventTypeName at h
  split at h
  · assumption
  · split at h
    · exact absurd h (by decide)
    · exact absurd h (by decide)

/-- An address that a transfer is looked up by is the page of a migration. -/
theorem migration_of_addressHit {x : Issued × ℕ} (hmapped : Mapped x.1) {a : CpuEvent}
    (htransfer : isTransfer (receivedOf x) = true) (hit : AddressHit a (receivedOf x)) :
    ∃ c, x.1.record = .unifiedMemoryCounter c ∧ Migration c ∧
      (a.allocAddress ≤ c.address.toNat ∧
          c.address.toNat < a.allocAddress + a.allocSizeBytes ∨
        a.pinnedAddress.getD 0 = c.address.toNat) := by
  obtain ⟨layer, mem, hev⟩ := hmapped
  have htype : x.1.event.eventType = EVENT_TRANSFER :=
    eventTypeName_transfer (of_decide_eq_true htransfer)
  obtain ⟨addr, hside, hne, hfound⟩ := hit
  have hdst : dstAddr (receivedOf x) = 0 := by
    show ((x.1.event.dstAddress.toNat : ℕ) : ℤ) = 0
    rw [eventOf_dstAddress hev]
    rfl
  have hsrc : addr = x.1.event.srcAddress.toNat := by
    rcases hside with hsrc | hzero
    · exact hsrc
    · exact absurd (hzero.trans hdst) hne
  have hnonzero : x.1.event.srcAddress ≠ 0 := by
    intro hzero
    rw [hzero] at hsrc
    exact hne hsrc
  obtain ⟨c, hrecord, hmigration, haddress⟩ := eventOf_srcAddress hev htype hnonzero
  rw [hsrc, haddress] at hfound
  exact ⟨c, hrecord, hmigration, hfound⟩

/-- No two delivered events share an id. -/
theorem delivered_nodup {actions : List ActivityRecords.Action} {w : World}
    (hrun : run ActivityRecords.step .init actions = some w)
    (hbound : w.issued.length < 2 ^ 64) :
    (w.delivered.map fun g => g.base.eventId).Nodup := by
  obtain ⟨done, queued, h⟩ := delivery_run hrun
  have hdelivered : w.delivered = done.map receivedOf := h.delivered
  rw [hdelivered, h.eventIds hbound]
  exact List.pairwise_map.mpr (h.numbers.imp fun hlt => Int.ofNat_inj.not.mpr (Nat.ne_of_lt hlt))

/-- In every run of the layer and its reader, for any CPU events: the correlation of what
the reader has been given is sound, since no two of its events share an id, and each of
its address matches names a migration record of unified memory whose page lies in the
allocation or is its pinned address. -/
theorem address_matches_are_migrations (actions : List ActivityRecords.Action) (w : World)
    (hrun : run ActivityRecords.step .init actions = some w)
    (hbound : w.issued.length < 2 ^ 64) (cpuEvents : List CpuEvent) (timeWindowNs : ℤ) :
    Sound cpuEvents w.delivered timeWindowNs
        (runCorrelation cpuEvents w.delivered timeWindowNs) ∧
      ∀ r ∈ runCorrelation cpuEvents w.delivered timeWindowNs, r.matchReason = .addressMatch →
        ∃ (n : ℕ) (c : UnifiedMemoryCounter2) (ev : GpuEventData) (a : CpuEvent),
          w.issued[n]? = some ⟨.unifiedMemoryCounter c, ev⟩ ∧ r.gpuEventId = n + 1 ∧
          Migration c ∧ a ∈ cpuEvents ∧ isAlloc a = true ∧ r.cpuEventId = a.base.eventId ∧
          (a.allocAddress ≤ c.address.toNat ∧
              c.address.toNat < a.allocAddress + a.allocSizeBytes ∨
            a.pinnedAddress.getD 0 = c.address.toNat) := by
  obtain ⟨done, queued, h⟩ := delivery_run hrun
  have hdelivered : w.delivered = done.map receivedOf := h.delivered
  have hsound : Sound cpuEvents w.delivered timeWindowNs
      (runCorrelation cpuEvents w.delivered timeWindowNs) :=
    runCorrelation_sound (delivered_nodup hrun hbound)
  refine ⟨hsound, ?_⟩
  intro r hr hreason
  obtain ⟨a, ha, g, hg, halloc, hcpu, hgpu, -, hholds⟩ := hsound.justified r hr
  rw [hdelivered] at hg
  obtain ⟨x, hx, rfl⟩ := List.mem_map.mp hg
  have hmem : x ∈ w.issued.zipIdx 1 := h.numbered.subset (List.mem_append_left _ hx)
  have hat : 1 ≤ x.2 ∧ w.issued[x.2 - 1]? = some x.1 :=
    List.mem_zipIdx_iff_le_and_getElem?_sub.mp hmem
  have hlt := List.snd_lt_of_mem_zipIdx hmem
  rcases hholds with ⟨-, -, htransfer, hit⟩ | ⟨hsize, -⟩ | ⟨htime, -⟩
  · obtain ⟨c, hrecord, hmigration, hfound⟩ :=
      migration_of_addressHit (h.mapped x.1 (List.fst_mem_of_mem_zipIdx hmem)) htransfer hit
    refine ⟨x.2 - 1, c, x.1.event, a, ?_, ?_, hmigration, ha, halloc, hcpu, hfound⟩
    · rw [hat.2, ← hrecord]
    · rw [hgpu, receivedOf_eventId (by omega)]
      omega
  · rw [hsize] at hreason
    cases hreason
  · rw [htime] at hreason
    cases hreason

/-- The migration is matched by its address. -/
theorem address_matches_are_migrations_small :
    ∃ w, run ActivityRecords.step .init smallRun = some w ∧
      Sound [allocAt 1 60 4096 64 0] w.delivered 50
          (runCorrelation [allocAt 1 60 4096 64 0] w.delivered 50) ∧
        ∃ r ∈ runCorrelation [allocAt 1 60 4096 64 0] w.delivered 50,
          r.matchReason = .addressMatch ∧
          ∃ (n : ℕ) (c : UnifiedMemoryCounter2) (ev : GpuEventData) (a : CpuEvent),
            w.issued[n]? = some ⟨.unifiedMemoryCounter c, ev⟩ ∧ r.gpuEventId = n + 1 ∧
            Migration c ∧ a ∈ [allocAt 1 60 4096 64 0] ∧ isAlloc a = true ∧
            r.cpuEventId = a.base.eventId ∧
            (a.allocAddress ≤ c.address.toNat ∧
                c.address.toNat < a.allocAddress + a.allocSizeBytes ∨
              a.pinnedAddress.getD 0 = c.address.toNat) := by
  have hmatched : ∀ w ∈ run ActivityRecords.step .init smallRun,
      ∃ r ∈ runCorrelation [allocAt 1 60 4096 64 0] w.delivered 50,
        r.matchReason = .addressMatch := by decide +kernel
  obtain ⟨w, hrun, hbound, -⟩ := smallRun_ends
  obtain ⟨hsound, hmigrations⟩ :=
    address_matches_are_migrations smallRun w hrun hbound [allocAt 1 60 4096 64 0] 50
  obtain ⟨r, hr, hreason⟩ := hmatched w hrun
  exact ⟨w, hrun, hsound, r, hr, hreason, hmigrations r hr hreason⟩

end HpcProfiler.ActivityCorrelation
