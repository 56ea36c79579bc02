import HpcProfiler.GraphNodes
import Mathlib.Algebra.Order.Group.Unbundled.Int
import Mathlib.Algebra.Order.Ring.Int

/-!
How many samples of the host's memory stay in the graph. They are thinned out in strides of
the rounded ratio of their number to the limit, so that more than the limit stay unless the
limit divides their number.
-/

namespace HpcProfiler.HostSampling

open TraceEvents TraceGraph GraphNodes ListWalks

def isSample (e : Event) : Bool := e.has "type" "host_stats"

def sampleCount (events : List Event) : ℕ := (events.filter isSample).length

/-- The samples in the order of time. -/
def samples (events : List Event) : List Entry := (eventsSorted events).filter isHostStats

def hostNodes (g : Graph) : List Node := g.nodes.filter fun n => n.group = "host_mem"

/-- The graph is built with no more samples than the limit, or with all of them if there are
no more. -/
def KeepsLimit (events : List Event) (limit : ℤ) : Prop :=
  ∃ g, buildGraph events limit = some g ∧ ((hostNodes g).length : ℤ) ≤ limit ∧
    ((sampleCount events : ℤ) ≤ limit → (hostNodes g).length = sampleCount events)

def sampleStep (events : List Event) (limit : ℤ) : ℕ :=
  if (sampleCount events : ℤ) ≤ limit then 1 else (sampleCount events / limit).toNat

/-- The limit divides the number of samples, or is not reached, and there is a label for each
event but the samples that the strides leave out. -/
structure Fits (events : List Event) (limit : ℤ) : Prop where
  divides : (sampleCount events : ℤ) ≤ limit ∨ limit ∣ sampleCount events
  labels : ∀ e ∈ events, isSample e = false → (shortLabel e).isSome
  sampleLabels : ∀ x ∈ stride (sampleStep events limit) (samples events), (shortLabel x.1).isSome

section

variable {events : List Event} {limit : ℤ}

theorem length_samples (events : List Event) : (samples events).length = sampleCount events := by
  have hperm := ((eventsSorted_fst events).filter isSample).length_eq
  have hcomp : isSample ∘ Prod.fst = isHostStats := rfl
  rw [List.filter_map, List.length_map, hcomp] at hperm
  exact hperm

theorem nodeGroup_host_iff (e : Event) : nodeGroup e = "host_mem" ↔ isSample e = true := by
  unfold nodeGroup isSample
  constructor
  · intro h
    split_ifs at h with hcallback hactivity hhost hmem hmarker
    · exact absurd h (by decide)
    · exact absurd h (by decide)
    · exact hhost
    · exact absurd h (by decide)
    · exact absurd h (by decide)
    · exact absurd h (by decide)
  · intro h
    rw [Event.has_other h (by decide), Event.has_other h (by decide), h]
    rfl

theorem length_hostNodes {g : Graph} {kept : List Entry} (h : EventsKept kept g.nodes)
    (hlabels : ∀ x ∈ kept, (shortLabel x.1).isSome) :
    (hostNodes g).length = (kept.filter isHostStats).length := by
  have hcount := congrArg (List.countP fun n => n.any fun n => n.group = "host_mem") h.eventNodes
  rw [List.countP_map, List.countP_map, List.countP_filter] at hcount
  rw [hostNodes, ← List.countP_eq_length_filter, ← List.countP_eq_length_filter]
  calc g.nodes.countP (fun n => n.group = "host_mem")
      = g.nodes.countP fun n => ((fun n => n.any fun n => n.group = "host_mem") ∘ some) n &&
          !isHub n := by
        refine List.countP_congr fun n _ => ?_
        simp only [Function.comp_apply, Option.any_some, Bool.and_eq_true, decide_eq_true_eq,
          isHub, Bool.not_eq_true', decide_eq_false_iff_not]
        refine ⟨fun hgroup => ⟨hgroup, ?_⟩, And.left⟩
        rw [hgroup]
        decide
    _ = kept.countP isHostStats := by
        rw [hcount]
        refine List.countP_congr fun x hx => ?_
        obtain ⟨label, hlabel⟩ := Option.isSome_iff_exists.mp (hlabels x hx)
        rw [Function.comp_apply, hlabel, Option.map_some, Option.any_some, decide_eq_true_eq]
        exact nodeGroup_host_iff x.1

/-- The samples that are kept are those of the strides. -/
theorem sampled_eq (hlimit : 0 ≤ limit) : sampled (samples events) limit =
    if (sampleCount events : ℤ) ≤ limit ∨ limit ≠ 0 then
      some (stride (sampleStep events limit) (samples events)) else none := by
  unfold sampled sampleStep
  rw [length_samples]
  by_cases hle : (sampleCount events : ℤ) ≤ limit
  · rw [if_neg (not_lt.mpr hle), if_pos hle, if_pos (.inl hle), stride_one]
  · rw [if_pos (not_le.mp hle), if_neg hle]
    by_cases hzero : limit = 0
    · rw [if_pos hzero, if_neg fun h => h.elim hle fun hne => hne hzero]
    · have hone : 1 ≤ (sampleCount events : ℤ) / limit :=
        (Int.le_ediv_iff_mul_le (lt_of_le_of_ne hlimit (Ne.symm hzero))).mpr (by omega)
      rw [if_neg hzero, if_pos (.inr hzero), Int.fdiv_eq_ediv_of_nonneg _ hlimit,
        max_eq_right hone]

theorem keptEvents_eq {keep : List Entry} (h : sampled (samples events) limit = some keep) :
    keptEvents events limit = some ((eventsSorted events).filter fun x =>
      !isHostStats x || x.2 ∈ keep.map Prod.snd) := by
  rw [keptEvents, ← samples, h, Option.map_some]

theorem sampleStep_pos (hlimit : 0 ≤ limit)
    (h : (sampleCount events : ℤ) ≤ limit ∨ limit ≠ 0) : 0 < sampleStep events limit := by
  unfold sampleStep
  split
  · exact Nat.one_pos
  · rename_i hle
    have hpos : 0 < limit := lt_of_le_of_ne hlimit (Ne.symm (h.resolve_left hle))
    have hone : 1 ≤ (sampleCount events : ℤ) / limit :=
      (Int.le_ediv_iff_mul_le hpos).mpr (by omega)
    omega

/-- The strides keep to the limit exactly if it is not reached or divides the number. -/
theorem length_stride_le_limit_iff (hlimit : 0 ≤ limit)
    (h : (sampleCount events : ℤ) ≤ limit ∨ limit ≠ 0) :
    ((stride (sampleStep events limit) (samples events)).length : ℤ) ≤ limit ↔
      (sampleCount events : ℤ) ≤ limit ∨ limit ∣ sampleCount events := by
  obtain ⟨m, rfl⟩ := Int.eq_ofNat_of_zero_le hlimit
  rw [Int.ofNat_le, length_stride_le_iff (sampleStep_pos hlimit h), length_samples,
    Int.natCast_dvd_natCast]
  unfold sampleStep
  split
  · rename_i hle
    rw [Nat.mul_one]
    exact ⟨fun hle' => .inl (Int.ofNat_le.mpr hle'), fun _ => Int.ofNat_le.mp hle⟩
  · rename_i hle
    have hstep : ((sampleCount events : ℤ) / (m : ℤ)).toNat = sampleCount events / m := by
      rw [← Int.natCast_ediv, Int.toNat_natCast]
    rw [hstep]
    have hback := Nat.div_mul_le_self (sampleCount events) m
    rw [Nat.mul_comm] at hback
    constructor
    · intro hcover
      exact .inr ⟨_, le_antisymm hcover hback⟩
    · rintro (hle' | hdvd)
      · exact absurd hle' hle
      · exact (Nat.mul_div_cancel' hdvd).ge

theorem filter_kept {keep : List Entry} (hsub : keep.Sublist (samples events)) :
    (((eventsSorted events).filter fun x => !isHostStats x || x.2 ∈ keep.map Prod.snd).filter
      isHostStats) = keep := by
  have hplaces : ((samples events).map Prod.snd).Nodup :=
    (eventsSorted_places events).sublist (List.filter_sublist.map Prod.snd)
  have hrule : ((eventsSorted events).filter fun x =>
        !isHostStats x || x.2 ∈ keep.map Prod.snd).filter isHostStats =
      (samples events).filter fun x => x.2 ∈ keep.map Prod.snd := by
    rw [samples, List.filter_filter, List.filter_filter]
    refine List.filter_congr fun x _ => ?_
    cases isHostStats x <;> simp
  rw [hrule, filter_mem_numbers hsub hplaces]

/-- Every event is kept but the samples that the strides leave out. -/
theorem labels_iff {keep : List Entry} (hsub : keep.Sublist (samples events)) :
    (∀ x ∈ (eventsSorted events).filter fun x => !isHostStats x || x.2 ∈ keep.map Prod.snd,
        (shortLabel x.1).isSome) ↔
      (∀ e ∈ events, isSample e = false → (shortLabel e).isSome) ∧
        ∀ x ∈ keep, (shortLabel x.1).isSome := by
  have hmem : ∀ x, x ∈ eventsSorted events → x.1 ∈ events := fun x hx =>
    (eventsSorted_fst events).mem_iff.mp (List.mem_map_of_mem hx)
  constructor
  · intro hall
    refine ⟨?_, ?_⟩
    · intro e he hother
      obtain ⟨x, hx, rfl⟩ := List.mem_map.mp ((eventsSorted_fst events).mem_iff.mpr he)
      have hhost : isHostStats x = false := hother
      exact hall x (List.mem_filter.mpr ⟨hx, by rw [hhost]; rfl⟩)
    · intro x hx
      rw [← filter_kept hsub] at hx
      exact hall x (List.mem_filter.mp hx).1
  · rintro ⟨hlabels, hkeep⟩ x hx
    by_cases hhost : isHostStats x = true
    · have hkept := List.mem_filter.mpr ⟨hx, hhost⟩
      rw [filter_kept hsub] at hkept
      exact hkeep x hkept
    · have hother : isSample x.1 = false := Bool.not_eq_true _ ▸ hhost
      exact hlabels x.1 (hmem x (List.mem_filter.mp hx).1) hother

/-- Where there are strides, the graph is built exactly if there are labels, and it holds
the samples of the strides. -/
theorem buildGraph_samples (hlimit : 0 ≤ limit)
    (h : (sampleCount events : ℤ) ≤ limit ∨ limit ≠ 0) :
    ((buildGraph events limit).isSome ↔
      (∀ e ∈ events, isSample e = false → (shortLabel e).isSome) ∧
        ∀ x ∈ stride (sampleStep events limit) (samples events), (shortLabel x.1).isSome) ∧
    ∀ g, buildGraph events limit = some g →
      (hostNodes g).length = (stride (sampleStep events limit) (samples events)).length := by
  have hsampled := (sampled_eq hlimit).trans (if_pos h)
  have hkept := keptEvents_eq hsampled
  have hsub := stride_sublist (sampleStep events limit) (samples events)
  have hrun : ∀ g, buildGraph events limit = some g → ∀ x ∈ (eventsSorted events).filter fun x =>
      !isHostStats x || x.2 ∈ (stride (sampleStep events limit) (samples events)).map Prod.snd,
      (shortLabel x.1).isSome := by
    intro g hg
    rw [buildGraph, hkept, Option.bind_some] at hg
    obtain ⟨s, hs, -⟩ := Option.map_eq_some_iff.mp hg
    exact addEvents_isSome_iff.mp (Option.isSome_of_eq_some hs)
  refine ⟨?_, ?_⟩
  · rw [buildGraph, hkept, Option.bind_some, Option.isSome_map, addEvents_isSome_iff]
    exact labels_iff hsub
  · intro g hg
    rw [length_hostNodes (buildGraph_eventsKept hkept hg) (hrun g hg), filter_kept hsub]

/-- The limit is kept if and only if it divides the number of samples or is not reached,
and the labels are there. -/
theorem keepsLimit_iff_fits (events : List Event) (limit : ℤ) (hlimit : 0 ≤ limit) :
    KeepsLimit events limit ↔ Fits events limit := by
  constructor
  · rintro ⟨g, hg, hle, -⟩
    have hbound : (sampleCount events : ℤ) ≤ limit ∨ limit ≠ 0 := by
      by_contra hnot
      have hsampled := (sampled_eq hlimit).trans (if_neg hnot)
      rw [buildGraph, keptEvents, ← samples, hsampled] at hg
      cases hg
    obtain ⟨hsome, hlength⟩ := buildGraph_samples hlimit hbound
    obtain ⟨hlabels, hsamples⟩ := hsome.mp (Option.isSome_of_eq_some hg)
    rw [hlength g hg, length_stride_le_limit_iff hlimit hbound] at hle
    exact ⟨hle, hlabels, hsamples⟩
  · intro hfits
    have hbound : (sampleCount events : ℤ) ≤ limit ∨ limit ≠ 0 := by
      rcases hfits.divides with hle | hdvd
      · exact .inl hle
      · by_contra hnot
        rw [not_or, not_not] at hnot
        rw [hnot.2, Int.zero_dvd] at hdvd
        exact hnot.1 (hdvd.trans_le hlimit)
    obtain ⟨hsome, hlength⟩ := buildGraph_samples hlimit hbound
    obtain ⟨g, hg⟩ := Option.isSome_iff_exists.mp (hsome.mpr ⟨hfits.labels, hfits.sampleLabels⟩)
    refine ⟨g, hg, ?_, fun hle => ?_⟩
    · rw [hlength g hg]
      exact (length_stride_le_limit_iff hlimit hbound).mpr hfits.divides
    · rw [hlength g hg, sampleStep, if_pos hle, stride_one, length_samples]

end

/-- Five samples and a limit of three. -/
def fiveSamples : List Event :=
  (List.range 5).map fun i : ℕ => ofFields [("type", .str "host_stats"), ("t_ns", .int i)]

theorem keepsLimit_iff_fits_fiveSamples : KeepsLimit fiveSamples 5 ↔ Fits fiveSamples 5 :=
  keepsLimit_iff_fits fiveSamples 5 (by decide)

/-- The stride is one, so that all five stay. -/
theorem fiveSamples_exceed :
    ¬ ∀ (events : List Event) (limit : ℤ), 0 ≤ limit → KeepsLimit events limit := by
  intro h
  obtain ⟨g, hg, hle, -⟩ := h fiveSamples 3 (by decide)
  have hbound : (sampleCount fiveSamples : ℤ) ≤ 3 ∨ (3 : ℤ) ≠ 0 := .inr (by decide)
  have hcount : sampleCount fiveSamples = 5 := by decide
  rw [(buildGraph_samples (by decide) hbound).2 g hg,
    length_stride_le_limit_iff (by decide) hbound, hcount] at hle
  revert hle
  decide

end HpcProfiler.HostSampling
