import AebNode.PerceptionLoop

/-! The loop in exact arithmetic, stated over the whole frame: three nested sets of points, the
accepted points of each fifth of the field of view, and the earliest nearest point of each fifth. -/
namespace AebNode.Perception
open Binary32

def InField (config : PerceptionConfig ℚ) (p : ScanPoint ℚ) : Prop :=
  0 < p.distanceMm ∧ config.minAngleDeg ≤ normalizeAngle p.angleDeg ∧
    normalizeAngle p.angleDeg ≤ config.maxAngleDeg

def InRange (config : PerceptionConfig ℚ) (p : ScanPoint ℚ) : Prop :=
  InField config p ∧ p.distanceMm ≤ config.maxDistanceMm

def Accepted (config : PerceptionConfig ℚ) (p : ScanPoint ℚ) : Prop :=
  InRange config p ∧ config.minimumQuality ≤ p.quality

instance (config : PerceptionConfig ℚ) : DecidablePred (InField config) :=
  fun _ => inferInstanceAs (Decidable (_ ∧ _ ∧ _))

instance (config : PerceptionConfig ℚ) : DecidablePred (InRange config) :=
  fun _ => inferInstanceAs (Decidable (_ ∧ _))

instance (config : PerceptionConfig ℚ) : DecidablePred (Accepted config) :=
  fun _ => inferInstanceAs (Decidable (_ ∧ _))

/-- The fifth of the field of view a bearing falls in; the upper limit belongs to the last. -/
def sectorOf (config : PerceptionConfig ℚ) (p : ScanPoint ℚ) : ℕ :=
  min 4 ⌊5 * (normalizeAngle p.angleDeg - config.minAngleDeg) /
    (config.maxAngleDeg - config.minAngleDeg)⌋₊

def sectorPoints (config : PerceptionConfig ℚ) (points : List (ScanPoint ℚ)) (i : Fin 5) :
    List (ScanPoint ℚ) :=
  points.filter fun p => Accepted config p ∧ sectorOf config p = i

/-- The earliest of the points at minimum distance. -/
def nearestPoint (points : List (ScanPoint ℚ)) : Option (ScanPoint ℚ) :=
  points.argmin ScanPoint.distanceMm

def nearestDistance (points : List (ScanPoint ℚ)) : ℚ :=
  (nearestPoint points).elim (-1) ScanPoint.distanceMm

def nearestAngle (points : List (ScanPoint ℚ)) : ℚ :=
  (nearestPoint points).elim 0 fun p => normalizeAngle p.angleDeg

theorem normalizeAngle_eq (angleDeg : ℚ) :
    normalizeAngle angleDeg = if 180 < angleDeg then angleDeg - 360 else angleDeg := by
  simp [normalizeAngle]

theorem truncate_of_nonneg {q : ℚ} (h : 0 ≤ q) : truncate q = ⌊q⌋ := if_pos h

theorem clampSector_val {z : ℤ} (h : 0 ≤ z) : (clampSector z : ℕ) = min 4 z.toNat := by
  unfold clampSector
  rw [if_neg (not_lt.mpr h)]
  split_ifs with h5
  · change 4 = min 4 z.toNat
    omega
  · change z.toNat = min 4 z.toNat
    omega

theorem sectorQuotient_eq (config : PerceptionConfig ℚ) (n : ℚ) :
    sectorQuotient config n =
      5 * (n - config.minAngleDeg) / (config.maxAngleDeg - config.minAngleDeg) := by
  unfold sectorQuotient sectorWidth fovSpan
  rw [Int.cast_ofNat, div_div_eq_mul_div, mul_comm]

/-- The clamped conversion is the documented sector for every bearing not below the limit. -/
theorem sectorIndex_eq {config : PerceptionConfig ℚ} {p : ScanPoint ℚ}
    (hfov : config.minAngleDeg < config.maxAngleDeg)
    (hn : config.minAngleDeg ≤ normalizeAngle p.angleDeg) :
    (sectorIndex config (normalizeAngle p.angleDeg) : ℕ) = sectorOf config p := by
  have hq : 0 ≤ sectorQuotient config (normalizeAngle p.angleDeg) := by
    rw [sectorQuotient_eq]
    exact div_nonneg (by linarith) (by linarith)
  unfold sectorIndex sectorOf
  change (clampSector (truncate (sectorQuotient config (normalizeAngle p.angleDeg))) : ℕ) = _
  rw [← sectorQuotient_eq, truncate_of_nonneg hq, clampSector_val (Int.floor_nonneg.mpr hq),
    Int.floor_toNat]

theorem nearestPoint_mem {points : List (ScanPoint ℚ)} {p : ScanPoint ℚ}
    (h : nearestPoint points = some p) : p ∈ points := List.argmin_mem h

theorem mem_sectorPoints {config : PerceptionConfig ℚ} {points : List (ScanPoint ℚ)}
    {p : ScanPoint ℚ} {i : Fin 5} :
    p ∈ sectorPoints config points i ↔
      p ∈ points ∧ Accepted config p ∧ sectorOf config p = i := by
  simp [sectorPoints]

theorem Accepted.inField {config : PerceptionConfig ℚ} {p : ScanPoint ℚ}
    (h : Accepted config p) : InField config p := h.1.1

theorem sectorPoints_pos {config : PerceptionConfig ℚ} {points : List (ScanPoint ℚ)} {i : Fin 5} :
    ∀ c ∈ sectorPoints config points i, 0 < c.distanceMm := fun _ hc =>
  (mem_sectorPoints.mp hc).2.1.inField.1

/-! The filters of the loop are the sets. -/

theorem passesAngle_iff {config : PerceptionConfig ℚ} {p : ScanPoint ℚ} :
    PassesAngle config p ↔ InField config p := by
  simp [PassesAngle, InField]

theorem passesDistance_iff {config : PerceptionConfig ℚ} {p : ScanPoint ℚ} :
    PassesDistance config p ↔ InRange config p := by
  rw [PassesDistance, InRange, passesAngle_iff, not_lt]

theorem passesQuality_iff {config : PerceptionConfig ℚ} {p : ScanPoint ℚ} :
    PassesQuality config p ↔ Accepted config p := by
  rw [PassesQuality, Accepted, passesDistance_iff, UInt8.not_lt]

theorem hitsOf_eq {config : PerceptionConfig ℚ} (hfov : config.minAngleDeg < config.maxAngleDeg)
    (points : List (ScanPoint ℚ)) (i : Fin 5) :
    hitsOf config points i = sectorPoints config points i := by
  refine List.filter_congr fun p _ => decide_eq_decide.mpr ?_
  rw [passesQuality_iff]
  refine and_congr_right fun hp => ?_
  rw [← sectorIndex_eq hfov hp.inField.2.1, Fin.val_inj]

theorem nearestHit_eq (points : List (ScanPoint ℚ)) : nearestHit points = nearestPoint points := by
  induction points using List.reverseRecOn with
  | nil => rfl
  | append_singleton points p ih =>
    rw [nearestHit_concat, ih, nearestPoint, nearestPoint, List.argmin_concat]
    cases List.argmin ScanPoint.distanceMm points with
    | none => rfl
    | some c => exact apply_ite some _ _ _

theorem hitDistance_eq (points : List (ScanPoint ℚ)) :
    hitDistance points = nearestDistance points := by
  rw [hitDistance, nearestDistance, nearestHit_eq, Int.cast_neg, Int.cast_one]

theorem hitAngle_eq (points : List (ScanPoint ℚ)) : hitAngle points = nearestAngle points := by
  rw [hitAngle, nearestAngle, nearestHit_eq, Int.cast_zero]

/-- The loop variables after a prefix of the frame. -/
structure LoopInvariant (config : PerceptionConfig ℚ) (points : List (ScanPoint ℚ))
    (s : LoopState ℚ) : Prop where
  angle : s.result.angleFilteredPoints = UInt32.ofNat (points.countP (InField config))
  distance : s.result.distanceFilteredPoints = UInt32.ofNat (points.countP (InRange config))
  quality : s.result.qualityFilteredPoints = UInt32.ofNat (points.countP (Accepted config))
  nearest : ∀ i, (s.result.sector i).nearestDistanceMm =
    nearestDistance (sectorPoints config points i)
  bearing : ∀ i, (s.result.sector i).nearestAngleDeg =
    nearestAngle (sectorPoints config points i)
  detected : ∀ i, (s.result.sector i).obstacleDetected = true ↔
    max 1 config.minHitsPerSector.toNat ≤ (sectorPoints config points i).length

theorem loop_invariant {config : PerceptionConfig ℚ} (frame : ScanFrame ℚ)
    (hfov : config.minAngleDeg < config.maxAngleDeg) (points : List (ScanPoint ℚ)) :
    LoopInvariant config points (points.foldl (processPoint config) (initialLoop frame)) := by
  have hs := loop_tracked config frame points
  have hcount : ∀ (P Q : ScanPoint ℚ → Prop) [DecidablePred P] [DecidablePred Q],
      (∀ p, P p ↔ Q p) → points.countP P = points.countP Q := fun P Q _ _ h =>
    List.countP_congr fun p _ => by simpa using h p
  constructor
  case angle => rw [hs.angle, hcount _ _ fun _ => passesAngle_iff]
  case distance => rw [hs.distance, hcount _ _ fun _ => passesDistance_iff]
  case quality => rw [hs.quality, hcount _ _ fun _ => passesQuality_iff]
  case nearest => exact fun i => by rw [hs.nearest, hitsOf_eq hfov, hitDistance_eq]
  case bearing => exact fun i => by rw [hs.bearing, hitsOf_eq hfov, hitAngle_eq]
  case detected => exact fun i => by rw [hs.detected, hitsOf_eq hfov]

end AebNode.Perception
