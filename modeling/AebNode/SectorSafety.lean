import AebNode.CommandLine
import AebNode.PerceptionSectors

/-! The conversion of a bearing to a sector index, for every pair of angle limits. The command
line lets through limits that are reversed, which no bearing passes, and limits that are equal,
which one bearing passes and then divides by a width of zero. -/
namespace AebNode.Perception
open Binary32 CommandLine

/-- A point reaches the sector computation exactly when it is accepted: it is then counted in
a sector. -/
theorem sectorHits_ne_iff (config : PerceptionConfig ℚ) (p : ScanPoint ℚ) :
    (∃ s, (processPoint config s p).sectorHits ≠ s.sectorHits) ↔ Accepted config p := by
  rw [← passesQuality_iff]
  constructor
  · rintro ⟨s, hs⟩
    by_contra hp
    apply hs
    rw [processPoint_eq, if_neg hp]
    split_ifs <;> rfl
  · intro hp
    refine ⟨⟨{}, fun _ => 0⟩, fun hsame => ?_⟩
    rw [processPoint_eq, if_pos hp] at hsame
    have hone := congrFun hsame (sectorIndex config (normalizeAngle p.angleDeg))
    simp [recordHit, LoopState.passAngle, LoopState.passDistance, LoopState.passQuality] at hone

/-- For every point of the frame that reaches the sector computation, the divisor is not zero,
the quotient lies in [0, 5] and so does the converted index. -/
def SectorSafe (config : PerceptionConfig ℚ) (frame : ScanFrame ℚ) : Prop :=
  ∀ p ∈ frame.points, (∃ s, (processPoint config s p).sectorHits ≠ s.sectorHits) →
    sectorWidth config ≠ 0 ∧
      0 ≤ sectorQuotient config (normalizeAngle p.angleDeg) ∧
      sectorQuotient config (normalizeAngle p.angleDeg) ≤ 5 ∧
      0 ≤ truncate (sectorQuotient config (normalizeAngle p.angleDeg)) ∧
      truncate (sectorQuotient config (normalizeAngle p.angleDeg)) ≤ 5

theorem sectorWidth_eq_zero_iff (config : PerceptionConfig ℚ) :
    sectorWidth config = 0 ↔ config.minAngleDeg = config.maxAngleDeg := by
  rw [sectorWidth, fovSpan, div_eq_zero_iff, sub_eq_zero]
  simp [eq_comm]

theorem sectorQuotient_bounds {config : PerceptionConfig ℚ}
    (hfov : config.minAngleDeg < config.maxAngleDeg) {n : ℚ} (hmin : config.minAngleDeg ≤ n)
    (hmax : n ≤ config.maxAngleDeg) :
    0 ≤ sectorQuotient config n ∧ sectorQuotient config n ≤ 5 := by
  have hspan : 0 < config.maxAngleDeg - config.minAngleDeg := by linarith
  rw [sectorQuotient_eq]
  constructor
  · exact div_nonneg (by linarith) hspan.le
  · rw [div_le_iff₀ hspan]
    linarith

/-- The sector computation is safe on a frame unless the two limits are equal and a point of
the frame passes all filters. -/
theorem sector_safe_iff (config : PerceptionConfig ℚ) (frame : ScanFrame ℚ) :
    SectorSafe config frame ↔
      ¬ (config.minAngleDeg = config.maxAngleDeg ∧ ∃ p ∈ frame.points, Accepted config p) := by
  constructor
  · rintro hsafe ⟨hequal, p, hp, ha⟩
    have hwidth := (hsafe p hp ((sectorHits_ne_iff config p).mpr ha)).1
    exact hwidth ((sectorWidth_eq_zero_iff config).mpr hequal)
  · intro h p hp hreached
    have ha := (sectorHits_ne_iff config p).mp hreached
    obtain ⟨-, hmin, hmax⟩ := ha.inField
    have hne : config.minAngleDeg ≠ config.maxAngleDeg := fun hequal => h ⟨hequal, p, hp, ha⟩
    have hfov : config.minAngleDeg < config.maxAngleDeg := (hmin.trans hmax).lt_of_ne hne
    obtain ⟨hge, hle⟩ := sectorQuotient_bounds hfov hmin hmax
    have hfloor := truncate_of_nonneg hge
    refine ⟨(sectorWidth_eq_zero_iff config).not.mpr hne, hge, hle, ?_, ?_⟩
    · rw [hfloor]
      exact Int.floor_nonneg.mpr hge
    · rw [hfloor]
      exact_mod_cast (Int.floor_le _).trans hle

/-- The parser accepts a field of view of a single bearing; a return at that bearing divides by
zero. -/
theorem single_bearing_divides_by_zero :
    ∃ options, parse 32 ["aeb_node", "--min-angle", "0", "--max-angle", "0"] =
        (some options, "") ∧ options.perception.Finite ∧
      ¬ SectorSafe options.perception.config ⟨0, 0, [⟨0, 500, 20⟩]⟩ := by
  refine ⟨{ perception.minAngleDeg := 0, perception.maxAngleDeg := 0 }, by decide +kernel,
    by decide +kernel, fun hsafe => ?_⟩
  have hreached : Accepted (Thresholds.config { minAngleDeg := 0, maxAngleDeg := 0 })
      ⟨0, 500, 20⟩ := by decide +kernel
  have hwidth := (hsafe ⟨0, 500, 20⟩ (List.mem_singleton_self _)
    ((sectorHits_ne_iff _ _).mpr hreached)).1
  exact hwidth (by decide +kernel)

end AebNode.Perception
