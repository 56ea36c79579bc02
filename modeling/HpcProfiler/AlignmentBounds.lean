import HpcProfiler.AlignmentFixpoint
import HpcProfiler.SortedRanks

/-!
The robustness of the alignment of the GPU. The offset between the GPU and the host is a
median, so as long as most of the matched pairs agree up to some bounds, the activities
are moved by an offset between these, whatever the other pairs are.
-/

namespace HpcProfiler.AlignmentBounds

open TraceEvents TraceAlignment AlignmentFixpoint FieldFrames StableSort SortedRanks

/-- The offsets of the activities that have a callback, which the alignment takes the
median of. -/
def matchedOffsets (events : List Event) : Option (List ℤ) :=
  let hosted := events.map (towardsHost (cbToHost events))
  (buildCpuEnterIndex (fun _ => none) (tmpCallbacks hosted)).bind fun idx =>
    gpuOffsets idx (hosted.filter isGpuAct)

theorem gpuToCpu_eq (events : List Event) :
    gpuToCpu events = (matchedOffsets events).map fun offsets => (medianInt offsets).getD 0 := by
  unfold gpuToCpu estimateGpuToCpuOffsetNs matchedOffsets
  dsimp only
  rw [Option.map_bind]
  rfl

/-- A median lies where most of the list does. -/
theorem medianInt_between {xs : List ℤ} {lo hi : ℤ}
    (hmajority : xs.length < 2 * countBetween id lo hi xs) :
    ∃ m, medianInt xs = some m ∧ lo ≤ m ∧ m ≤ hi := by
  have hcount : countBetween id lo hi xs ≤ xs.length := List.countP_le_length
  have hlen : (sortBy id xs).length = xs.length := (sortBy_perm id xs).length_eq
  have hne : xs ≠ [] := by
    rintro rfl
    rw [List.length_nil] at hmajority hcount
    omega
  have hrank : ∀ k, k < xs.length → k < countBetween id lo hi xs →
      xs.length ≤ k + countBetween id lo hi xs →
      lo ≤ (sortBy id xs).getD k 0 ∧ (sortBy id xs).getD k 0 ≤ hi := by
    intro k hk hbefore hbehind
    obtain ⟨a, ha, hbounds⟩ := sortBy_between hk hbefore hbehind
    rw [List.getD_eq_getElem?_getD, ha]
    exact hbounds
  have hupper := hrank (xs.length / 2) (by omega) (by omega) (by omega)
  unfold medianInt
  dsimp only
  rw [if_neg hne, hlen]
  by_cases hodd : xs.length % 2 = 1
  · rw [if_pos hodd]
    exact ⟨_, rfl, hupper⟩
  · rw [if_neg hodd]
    have hlower := hrank (xs.length / 2 - 1) (by omega) (by omega) (by omega)
    exact ⟨_, rfl, by omega, by omega⟩

/-- An activity is moved from its start by the offset. -/
theorem alignedTNs_of_gpu {a b s : ℤ} {e : Event} (hgpu : isGpuAct e = true)
    (hs : (getGpuStartEnd e).1 = some s) : alignedTNs (alignOne a b e) = s + b := by
  have haligned : isAligned (alignGpu b (reclassify e)) = true := isAligned_alignGpu hgpu hs
  have hact : isGpuAct (reclassify e) = true :=
    (reads_isGpuAct.after writesOnly_reclassify rfl e).trans hgpu
  have hstart : (getGpuStartEnd (reclassify e)).1 = some s := by
    rw [reads_getGpuStartEnd.after writesOnly_reclassify rfl, hs]
  rw [alignOne_of_gpu hgpu, alignRest, if_pos haligned, alignGpu, if_pos hact, hstart]
  dsimp only
  rw [alignedTNs, Event.intAt, Event.set_same]
  rfl

/-- In every trace whose alignment succeeds: if the offsets of more than half of the matched
activities lie between two bounds, so does the offset of the alignment, and with it the
way from the start of each activity to its aligned time. -/
theorem gpu_offset_between (events out : List Event) (a b lo hi : ℤ) (offsets : List ℤ)
    (halign : alignEvents events = some (out, a, b))
    (hoffsets : matchedOffsets events = some offsets)
    (hmajority : offsets.length < 2 * countBetween id lo hi offsets) :
    lo ≤ b ∧ b ≤ hi ∧ ∀ e ∈ events, isGpuAct e = true → ∀ s, (getGpuStartEnd e).1 = some s →
      ∃ x ∈ out, x = alignOne a b e ∧ s + lo ≤ alignedTNs x ∧ alignedTNs x ≤ s + hi := by
  obtain ⟨m, hm, hlo, hhi⟩ := medianInt_between hmajority
  rw [alignEvents_eq, gpuToCpu_eq, hoffsets, Option.map_some, Option.map_some, hm] at halign
  have hpair := Prod.mk.inj (Option.some.inj halign)
  have hcb := (Prod.mk.inj hpair.2).1
  have hb : m = b := (Prod.mk.inj hpair.2).2
  subst hb
  refine ⟨hlo, hhi, ?_⟩
  intro e he hgpu s hs
  have htime := alignedTNs_of_gpu (a := a) (b := m) hgpu hs
  have haligned : isAligned (alignOne a m e) = true := by
    rw [alignOne_of_gpu hgpu, alignRest, if_pos (isAligned_alignGpu hgpu hs)]
    exact isAligned_alignGpu hgpu hs
  refine ⟨alignOne a m e, ?_, rfl, by omega, by omega⟩
  rw [← hpair.1, mem_sortBy, List.mem_filter, hcb]
  exact ⟨List.mem_map_of_mem he, haligned⟩

theorem gpu_offset_between_shortTrace : ∃ out a b offsets,
    alignEvents shortTrace = some (out, a, b) ∧ matchedOffsets shortTrace = some offsets ∧
      100 ≤ b ∧ b ≤ 100 ∧ ∀ e ∈ shortTrace, isGpuAct e = true →
        ∀ s, (getGpuStartEnd e).1 = some s →
          ∃ x ∈ out, x = alignOne a b e ∧ s + 100 ≤ alignedTNs x ∧ alignedTNs x ≤ s + 100 := by
  have hsome : (alignEvents shortTrace).isSome := rfl
  obtain ⟨⟨out, a, b⟩, h⟩ := Option.isSome_iff_exists.mp hsome
  exact ⟨out, a, b, [100], h, rfl, gpu_offset_between shortTrace out a b 100 100 [100] h rfl
    (by decide)⟩

end HpcProfiler.AlignmentBounds
