import HpcProfiler.ActivityRecords
import HpcProfiler.SortedRanks

/-!
The clock of the GPU events. The offset between the clocks is the median of five
readings, so two readings that were held up cannot move it out of the range of the other
three, and every timestamp is off by no more than these are.
-/

namespace HpcProfiler.ClockCalibration

open StableSort SortedRanks ActivityRecords

/-- The time of a reading by the wall clock. -/
def wall (sample : ClockSample) : ℤ := sample.tvSec.toInt * 1000000000 + sample.tvNsec.toInt

/-- The offset that a reading gives, as a number. -/
def gap (sample : ClockSample) : ℤ := wall sample - sample.gpu.toNat

/-- Both clocks have run for less than 146 years. -/
structure InRange (sample : ClockSample) : Prop where
  sec : 0 ≤ sample.tvSec.toInt
  nsec : 0 ≤ sample.tvNsec.toInt
  wall : wall sample < 2 ^ 62
  gpu : sample.gpu.toNat < 2 ^ 62

theorem toInt_toInt64 {g : UInt64} (h : g.toNat < 2 ^ 63) : g.toInt64.toInt = g.toNat := by
  have hlt : 2 * g.toBitVec.toNat < 2 ^ 64 := by
    show 2 * g.toNat < 2 ^ 64
    omega
  rw [Int64.toInt, UInt64.toBitVec_toInt64, BitVec.toInt_eq_toNat_of_lt hlt]
  rfl

theorem bmod_eq {n : ℤ} (hlow : -2 ^ 63 ≤ n) (hhigh : n < 2 ^ 63) : n.bmod (2 ^ 64) = n := by
  apply Int.bmod_eq_of_le_mul_two
  · push_cast
    omega
  · push_cast
    omega

theorem toInt_difference {sample : ClockSample} (h : InRange sample) :
    sample.difference.toInt = gap sample := by
  obtain ⟨hsec, hnsec, hwall, hgpu⟩ := h
  unfold wall at hwall
  have hgiga : (1000000000 : Int64).toInt = 1000000000 := by decide
  have hproduct : (sample.tvSec * 1000000000).toInt = sample.tvSec.toInt * 1000000000 := by
    rw [Int64.toInt_mul, hgiga]
    exact bmod_eq (by omega) (by omega)
  have hsum : (sample.tvSec * 1000000000 + sample.tvNsec).toInt =
      sample.tvSec.toInt * 1000000000 + sample.tvNsec.toInt := by
    rw [Int64.toInt_add, hproduct]
    exact bmod_eq (by omega) (by omega)
  show (sample.tvSec * 1000000000 + sample.tvNsec - sample.gpu.toInt64).toInt = gap sample
  rw [Int64.toInt_sub, hsum, toInt_toInt64 (by omega)]
  exact bmod_eq (by omega) (by omega)

/-- Within range, a timestamp is the GPU time moved by the offset, and zero where that
would be before the wall clock's origin. -/
theorem toWallNs_eq {sync : TimestampSync} {g : UInt64} (hg : g.toNat < 2 ^ 62)
    (hlow : -2 ^ 62 ≤ sync.offsetNs.toInt) (hhigh : sync.offsetNs.toInt ≤ 2 ^ 62) :
    ((sync.toWallNs g).toNat : ℤ) = max 0 (g.toNat + sync.offsetNs.toInt) := by
  have hresult : (g.toInt64 + sync.offsetNs).toInt = g.toNat + sync.offsetNs.toInt := by
    rw [Int64.toInt_add, toInt_toInt64 (by omega)]
    exact bmod_eq (by omega) (by omega)
  have hzero : (0 : Int64).toInt = 0 := by decide
  unfold TimestampSync.toWallNs
  dsimp only
  by_cases hneg : g.toInt64 + sync.offsetNs < 0
  · rw [if_pos hneg]
    rw [Int64.lt_iff_toInt_lt, hresult, hzero] at hneg
    rw [max_eq_left (le_of_lt hneg)]
    rfl
  · rw [if_neg hneg]
    rw [Int64.lt_iff_toInt_lt, hresult, hzero] at hneg
    have hle : (0 : Int64) ≤ g.toInt64 + sync.offsetNs := by
      rw [Int64.le_iff_toInt_le, hresult, hzero]
      omega
    rw [Int64.toNat_toUInt64_of_le hle, max_eq_right (by omega)]
    show ((g.toInt64 + sync.offsetNs).toInt.toNat : ℤ) = _
    rw [hresult]
    omega

theorem calibrate_offset (samples : Fin 5 → ClockSample) :
    (calibrate samples).offsetNs =
      (sortBy Int64.toInt (List.ofFn fun i => (samples i).difference)).getD 2 0 := rfl

theorem countBetween_difference {samples : Fin 5 → ClockSample} {lo hi : ℤ}
    (hrange : ∀ i, InRange (samples i)) :
    countBetween Int64.toInt lo hi (List.ofFn fun i => (samples i).difference) =
      countBetween gap lo hi (List.ofFn samples) := by
  have hmap : (List.ofFn fun i => (samples i).difference) =
      (List.ofFn samples).map ClockSample.difference := by
    rw [List.map_ofFn]
    rfl
  rw [hmap, countBetween, countBetween, List.countP_map]
  apply List.countP_congr
  intro sample hsample
  obtain ⟨i, rfl⟩ := List.mem_ofFn.mp hsample
  have hgap := toInt_difference (hrange i)
  rw [Function.comp_apply, decide_eq_true_iff, decide_eq_true_iff, hgap]

/-- The offset is the middle one of the five. -/
theorem calibrate_between {samples : Fin 5 → ClockSample} {lo hi : ℤ}
    (hrange : ∀ i, InRange (samples i))
    (hmajority : 3 ≤ countBetween gap lo hi (List.ofFn samples)) :
    lo ≤ (calibrate samples).offsetNs.toInt ∧ (calibrate samples).offsetNs.toInt ≤ hi := by
  rw [← countBetween_difference hrange] at hmajority
  have hlen : (List.ofFn fun i => (samples i).difference).length = 5 := List.length_ofFn
  rw [calibrate_offset, List.getD_eq_getElem?_getD]
  generalize (List.ofFn fun i => (samples i).difference) = differences at hmajority hlen ⊢
  have htwo : 2 < differences.length := by omega
  have hbehind : differences.length ≤ 2 + countBetween Int64.toInt lo hi differences := by omega
  obtain ⟨middle, hmiddle, hbounds⟩ := sortBy_between htwo hmajority hbehind
  rw [hmiddle]
  exact hbounds

theorem gap_bounds {sample : ClockSample} (h : InRange sample) :
    -2 ^ 62 ≤ gap sample ∧ gap sample ≤ 2 ^ 62 := by
  obtain ⟨hsec, hnsec, hwall, hgpu⟩ := h
  have hpos : 0 ≤ wall sample := by
    unfold wall
    omega
  unfold gap
  omega

theorem offset_bounds {samples : Fin 5 → ClockSample} (hrange : ∀ i, InRange (samples i)) :
    -2 ^ 62 ≤ (calibrate samples).offsetNs.toInt ∧
      (calibrate samples).offsetNs.toInt ≤ 2 ^ 62 := by
  apply calibrate_between hrange
  have hall : countBetween gap (-2 ^ 62) (2 ^ 62) (List.ofFn samples) =
      (List.ofFn samples).length := by
    apply List.countP_eq_length.mpr
    intro sample hsample
    obtain ⟨i, rfl⟩ := List.mem_ofFn.mp hsample
    exact decide_eq_true (gap_bounds (hrange i))
  rw [hall, List.length_ofFn]
  omega

/-- If three of the five readings give offsets between two bounds, whatever the other two
are, then so does every timestamp that the layer computes, and the timestamps keep the
order of the GPU times. The clocks of all five and the GPU times are below `2 ^ 62`
nanoseconds. -/
theorem timestamps_within (samples : Fin 5 → ClockSample) (lo hi : ℤ)
    (hrange : ∀ i, InRange (samples i))
    (hmajority : 3 ≤ countBetween gap lo hi (List.ofFn samples)) (g g' : UInt64)
    (hg : g.toNat < 2 ^ 62) (hg' : g'.toNat < 2 ^ 62) :
    max 0 (g.toNat + lo) ≤ ((calibrate samples).toWallNs g).toNat ∧
      ((calibrate samples).toWallNs g).toNat ≤ max 0 (g.toNat + hi) ∧
      (g ≤ g' → (calibrate samples).toWallNs g ≤ (calibrate samples).toWallNs g') := by
  obtain ⟨hlow, hhigh⟩ := offset_bounds hrange
  obtain ⟨hlo, hhi⟩ := calibrate_between hrange hmajority
  have htime := toWallNs_eq hg hlow hhigh
  have htime' := toWallNs_eq hg' hlow hhigh
  rw [htime]
  refine ⟨?_, ?_, ?_⟩
  · exact max_le_max_left 0 (Int.add_le_add_left hlo _)
  · exact max_le_max_left 0 (Int.add_le_add_left hhi _)
  · intro hle
    rw [UInt64.le_iff_toNat_le] at hle ⊢
    have hmono : (((calibrate samples).toWallNs g).toNat : ℤ) ≤
        ((calibrate samples).toWallNs g').toNat := by
      rw [htime, htime']
      exact max_le_max_left 0 (Int.add_le_add_right (Int.ofNat_le.mpr hle) _)
    exact Int.ofNat_le.mp hmono

/-- Two of the readings were held up for a second. -/
def heldUp : Fin 5 → ClockSample
  | 0 => ⟨10, 500, 1000⟩
  | 1 => ⟨11, 500, 1010⟩
  | 2 => ⟨10, 520, 1020⟩
  | 3 => ⟨10, 530, 1030⟩
  | 4 => ⟨11, 540, 1040⟩

theorem heldUp_inRange : ∀ i, InRange (heldUp i)
  | 0 => ⟨by decide, by decide, by decide, by decide⟩
  | 1 => ⟨by decide, by decide, by decide, by decide⟩
  | 2 => ⟨by decide, by decide, by decide, by decide⟩
  | 3 => ⟨by decide, by decide, by decide, by decide⟩
  | 4 => ⟨by decide, by decide, by decide, by decide⟩

theorem timestamps_within_heldUp :
    max 0 (((2000 : UInt64).toNat : ℤ) + 9999999500) ≤
        ((calibrate heldUp).toWallNs 2000).toNat ∧
      (((calibrate heldUp).toWallNs 2000).toNat : ℤ) ≤
        max 0 (((2000 : UInt64).toNat : ℤ) + 9999999500) ∧
      ((2000 : UInt64) ≤ 3000 →
        (calibrate heldUp).toWallNs 2000 ≤ (calibrate heldUp).toWallNs 3000) :=
  timestamps_within heldUp 9999999500 9999999500 heldUp_inRange (by decide) 2000 3000
    (by decide) (by decide)

end HpcProfiler.ClockCalibration
