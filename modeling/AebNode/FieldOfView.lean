import AebNode.PerceptionSectors
import AebNode.RpLidarDevice

/-! The angle filter on the bearings the sensor can report. The normalisation maps [0, 360) to
(-180, 180], so a field of view that starts at -180 may miss the bearing straight behind. -/
namespace AebNode.Perception
open RpLidarDevice

/-- Adding the point to a frame raises the counter of the angle filter by one. -/
def Counts (config : PerceptionConfig ℚ) (p : ScanPoint ℚ) : Prop :=
  ∀ (sequence : UInt32) (timestampUs : UInt64) (before after : List (ScanPoint ℚ)),
    (process config ⟨sequence, timestampUs, before ++ p :: after⟩).angleFilteredPoints =
      (process config ⟨sequence, timestampUs, before ++ after⟩).angleFilteredPoints + 1

theorem counts_iff {config : PerceptionConfig ℚ} (hfov : config.minAngleDeg < config.maxAngleDeg)
    (p : ScanPoint ℚ) : Counts config p ↔ InField config p := by
  have hcounter : ∀ frame : ScanFrame ℚ, (process config frame).angleFilteredPoints =
      UInt32.ofNat (frame.points.countP (InField config)) :=
    fun frame => (loop_invariant frame hfov frame.points).angle
  constructor
  · intro h
    by_contra hp
    have hsame := h 0 0 [] []
    rw [hcounter, hcounter] at hsame
    simp [hp] at hsame
  · intro hp sequence timestampUs before after
    rw [hcounter, hcounter, List.countP_append, List.countP_cons_of_pos (by simpa using hp),
      ← Nat.add_assoc, ← List.countP_append, UInt32.ofNat_add]
    rfl

/-- Some angle congruent to the bearing modulo a full turn lies between the limits. -/
def Faces (config : PerceptionConfig ℚ) (bearing : ℚ) : Prop :=
  ∃ turns : ℤ, config.minAngleDeg ≤ bearing + 360 * turns ∧
    bearing + 360 * turns ≤ config.maxAngleDeg

theorem toDegrees_eq (k : UInt16) : toDegrees k = (k.toNat : ℚ) * 90 / 16384 := by
  have hexact : roundToFloat k.toNat = k.toNat := by
    have hlt := k.toNat_lt
    have hlog : k.toNat.log2 - 23 = 0 := by
      by_cases hzero : k.toNat = 0
      · rw [hzero]
        rfl
      · have hlog2 := (Nat.log2_lt hzero).mpr hlt
        omega
    simp [roundToFloat, hlog, Nat.mod_one]
  rw [toDegrees, hexact]

theorem toDegrees_range (k : UInt16) : 0 ≤ toDegrees k ∧ toDegrees k < 360 := by
  have hlt : (k.toNat : ℚ) < 65536 := by exact_mod_cast k.toNat_lt
  rw [toDegrees_eq]
  constructor
  · positivity
  · linarith

/-- Between limits of half a turn each way, a bearing of [0, 360) can only be met as it is or
one turn less. -/
theorem faces_iff {config : PerceptionConfig ℚ} (hmin : -180 ≤ config.minAngleDeg)
    (hmax : config.maxAngleDeg ≤ 180) {bearing : ℚ} (hge : 0 ≤ bearing) (hlt : bearing < 360) :
    Faces config bearing ↔
      (config.minAngleDeg ≤ bearing ∧ bearing ≤ config.maxAngleDeg) ∨
        (config.minAngleDeg ≤ bearing - 360 ∧ bearing - 360 ≤ config.maxAngleDeg) := by
  constructor
  · rintro ⟨turns, hlow, hhigh⟩
    have hupper : (turns : ℚ) < 1 := by linarith
    have hlower : (-2 : ℚ) < turns := by linarith
    have hturns : turns = 0 ∨ turns = -1 := by
      have hupper' : turns < 1 := by exact_mod_cast hupper
      have hlower' : -2 < turns := by exact_mod_cast hlower
      omega
    rcases hturns with rfl | rfl
    · left
      norm_num at hlow hhigh
      exact ⟨hlow, hhigh⟩
    · right
      norm_num at hlow hhigh
      constructor <;> linarith
  · rintro (⟨hlow, hhigh⟩ | ⟨hlow, hhigh⟩)
    · exact ⟨0, by norm_num [hlow], by norm_num [hhigh]⟩
    · refine ⟨-1, ?_, ?_⟩ <;> push_cast <;> linarith

/-- The filter counts exactly the points whose bearing lies in the field of view modulo a full
turn, unless the point is straight behind and the field of view starts there but ends before
180 degrees: that point is not counted. -/
theorem field_of_view_respected_iff {config : PerceptionConfig ℚ}
    (hmin : -180 ≤ config.minAngleDeg) (hfov : config.minAngleDeg < config.maxAngleDeg)
    (hmax : config.maxAngleDeg ≤ 180) (k : UInt16) {distanceMm : ℚ} (hdistance : 0 < distanceMm)
    (quality : UInt8) :
    (Counts config ⟨toDegrees k, distanceMm, quality⟩ ↔ Faces config (toDegrees k)) ↔
      ¬ (toDegrees k = 180 ∧ config.minAngleDeg = -180 ∧ config.maxAngleDeg < 180) := by
  obtain ⟨hge, hlt⟩ := toDegrees_range k
  rw [counts_iff hfov, faces_iff hmin hmax hge hlt]
  simp only [InField, hdistance, true_and, normalizeAngle_eq]
  generalize toDegrees k = bearing at hge hlt ⊢
  split_ifs with hbehind
  · have hfar : ¬ bearing ≤ config.maxAngleDeg := by linarith
    have hne : bearing ≠ 180 := by linarith
    simp [hfar, hne]
  · have hturn : (config.minAngleDeg ≤ bearing - 360 ∧ bearing - 360 ≤ config.maxAngleDeg) ↔
        bearing = 180 ∧ config.minAngleDeg = -180 := by
      constructor
      · rintro ⟨hlow, -⟩
        constructor <;> linarith
      · rintro ⟨hbearing, hstart⟩
        constructor <;> linarith
    rw [hturn]
    constructor
    · rintro h ⟨hbearing, hstart, hend⟩
      have hcounted := (h.mpr (Or.inr ⟨hbearing, hstart⟩)).2
      linarith
    · intro h
      refine ⟨Or.inl, ?_⟩
      rintro (hcounted | ⟨hbearing, hstart⟩)
      · exact hcounted
      · have hend : ¬ config.maxAngleDeg < 180 := fun hend => h ⟨hbearing, hstart, hend⟩
        constructor <;> linarith

/-- A point ahead of the vehicle under the default field of view. -/
theorem field_of_view_respected_iff_ahead :
    Counts {} ⟨toDegrees 0, 500, 20⟩ ↔ Faces {} (toDegrees 0) := by
  have hahead : toDegrees 0 = 0 := by decide +kernel
  refine (@field_of_view_respected_iff {} (by decide +kernel) (by decide +kernel)
    (by decide +kernel) 0 500 (by norm_num) 20).mpr ?_
  rw [hahead]
  norm_num

/-- The half turn on one side of the vehicle, its rear limit included. -/
def leftHalf : PerceptionConfig ℚ := { minAngleDeg := -180, maxAngleDeg := 0 }

/-- A point straight behind, half a turn off the heading, is not counted although the field of
view begins at minus half a turn. -/
theorem behind_is_not_counted :
    Faces leftHalf (toDegrees 32768) ∧ ¬ Counts leftHalf ⟨toDegrees 32768, 500, 20⟩ := by
  have hbehind : toDegrees 32768 = 180 := by decide +kernel
  constructor
  · refine ⟨-1, ?_, ?_⟩ <;> rw [hbehind] <;> norm_num [leftHalf]
  · intro h
    have hcount := h 0 0 [] []
    revert hcount
    decide +kernel

end AebNode.Perception
