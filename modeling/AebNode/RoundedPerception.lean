import AebNode.Application
import AebNode.CommandLine
import AebNode.FieldOfView

/-! The loop of the node and the exact one. On what the sensor reports the two agree as long as no
quotient is carried to another sector: all else that the loop computes is exact. -/
namespace AebNode.Perception
open Binary32

@[simp] theorem cast_zero_eq : ((0 : ℤ) : Value) = .finite 0 := by decide +kernel

namespace PerceptionConfig

def binary32 (config : PerceptionConfig ℚ) : PerceptionConfig Value where
  minAngleDeg := .finite config.minAngleDeg
  maxAngleDeg := .finite config.maxAngleDeg
  maxDistanceMm := .finite config.maxDistanceMm
  minimumQuality := config.minimumQuality
  minHitsPerSector := config.minHitsPerSector

end PerceptionConfig

theorem stored_eq {t : CommandLine.Thresholds} (h : t.Finite) : t.stored = t.config.binary32 := by
  obtain ⟨hmin, hmax, hdistance⟩ := h
  simp [CommandLine.Thresholds.stored, CommandLine.Thresholds.config, PerceptionConfig.binary32,
    Value.ofBits, hmin, hmax, hdistance]

def SectorResult.binary32 (v : SectorResult ℚ) : SectorResult Value where
  obstacleDetected := v.obstacleDetected
  nearestDistanceMm := .finite v.nearestDistanceMm
  nearestAngleDeg := .finite v.nearestAngleDeg

def DetectionResult.binary32 (r : DetectionResult ℚ) : DetectionResult Value where
  left := r.left.binary32
  leftCenter := r.leftCenter.binary32
  center := r.center.binary32
  rightCenter := r.rightCenter.binary32
  right := r.right.binary32
  totalPoints := r.totalPoints
  angleFilteredPoints := r.angleFilteredPoints
  distanceFilteredPoints := r.distanceFilteredPoints
  qualityFilteredPoints := r.qualityFilteredPoints
  timestamp := r.timestamp

def LoopState.binary32 (s : LoopState ℚ) : LoopState Value := ⟨s.result.binary32, s.sectorHits⟩

theorem setSector_binary32 (r : DetectionResult ℚ) (i : Fin 5) (v : SectorResult ℚ) :
    (r.setSector i v).binary32 = r.binary32.setSector i v.binary32 := by
  fin_cases i <;> rfl

theorem sector_binary32 (r : DetectionResult ℚ) (i : Fin 5) :
    r.binary32.sector i = (r.sector i).binary32 := by
  fin_cases i <;> rfl

theorem trackNearest_binary32 (config : PerceptionConfig ℚ) (v : SectorResult ℚ) (hits : UInt32)
    (p : ScanPoint ℚ) (n : ℚ) :
    trackNearest config.binary32 v.binary32 hits (p.map .finite) (.finite n) =
      (trackNearest config v hits p n).binary32 := by
  have hnearer : (Value.finite p.distanceMm < v.binary32.nearestDistanceMm ∨
      v.binary32.nearestDistanceMm < ((0 : ℤ) : Value)) ↔
      (p.distanceMm < v.nearestDistanceMm ∨ v.nearestDistanceMm < ((0 : ℤ) : ℚ)) := by
    simp [SectorResult.binary32]
  simp only [trackNearest, ScanPoint.map, hnearer, PerceptionConfig.binary32]
  split_ifs <;> rfl

/-- A point on which rounding changes neither the bearing nor the sector. -/
structure Unrounded (config : PerceptionConfig ℚ) (p : ScanPoint ℚ) : Prop where
  bearing : normalizeAngle (Value.finite p.angleDeg) = .finite (normalizeAngle p.angleDeg)
  sector : Accepted config p → sectorIndex config.binary32 (.finite (normalizeAngle p.angleDeg)) =
    sectorIndex config (normalizeAngle p.angleDeg)

theorem Unrounded.passes {config : PerceptionConfig ℚ} {p : ScanPoint ℚ}
    (h : Unrounded config p) :
    (PassesAngle config.binary32 (p.map .finite) ↔ PassesAngle config p) ∧
      (PassesDistance config.binary32 (p.map .finite) ↔ PassesDistance config p) ∧
      (PassesQuality config.binary32 (p.map .finite) ↔ PassesQuality config p) := by
  have hangle : PassesAngle config.binary32 (p.map .finite) ↔ PassesAngle config p := by
    simp [PassesAngle, ScanPoint.map, h.bearing, PerceptionConfig.binary32]
  have hdistance : PassesDistance config.binary32 (p.map .finite) ↔ PassesDistance config p :=
    and_congr hangle Iff.rfl
  exact ⟨hangle, hdistance, and_congr hdistance Iff.rfl⟩

theorem recordHit_binary32 {config : PerceptionConfig ℚ} {n : ℚ}
    (h : sectorIndex config.binary32 (.finite n) = sectorIndex config n) (s : LoopState ℚ)
    (p : ScanPoint ℚ) : recordHit config.binary32 s.binary32 (p.map .finite) (.finite n) =
      (recordHit config s p n).binary32 := by
  simp only [recordHit, LoopState.binary32, h, sector_binary32, trackNearest_binary32,
    setSector_binary32]

theorem processPoint_binary32 {config : PerceptionConfig ℚ} {p : ScanPoint ℚ}
    (h : Unrounded config p) (s : LoopState ℚ) :
    processPoint config.binary32 s.binary32 (p.map .finite) =
      (processPoint config s p).binary32 := by
  obtain ⟨hangle, hdistance, hquality⟩ := h.passes
  simp only [processPoint_eq, hangle, hdistance, hquality]
  split_ifs with hpasses
  · rw [← recordHit_binary32 (h.sector (passesQuality_iff.mp hpasses)), ← h.bearing]
    rfl
  all_goals rfl

/-- The loop of the node finds what the exact one finds, where rounding changes no point. -/
theorem process_binary32 {config : PerceptionConfig ℚ} {frame : ScanFrame ℚ}
    (h : ∀ p ∈ frame.points, Unrounded config p) :
    process config.binary32 (frame.map .finite) = (process config frame).binary32 := by
  have hloop : ∀ (points : List (ScanPoint ℚ)) (s : LoopState ℚ),
      (∀ p ∈ points, Unrounded config p) →
      (points.map (ScanPoint.map Value.finite)).foldl (processPoint config.binary32) s.binary32 =
        (points.foldl (processPoint config) s).binary32 := by
    intro points
    induction points with
    | nil => exact fun s _ => rfl
    | cons p points ih =>
      intro s hpoints
      obtain ⟨hp, hrest⟩ := List.forall_mem_cons.mp hpoints
      rw [List.map_cons, List.foldl_cons, List.foldl_cons, processPoint_binary32 hp]
      exact ih _ hrest
  have hinitial : initialLoop (frame.map Value.finite) = (initialLoop frame).binary32 := by
    have hsentinel : ((-1 : ℤ) : Value) = .finite (-1) := by decide +kernel
    simp [initialLoop, ScanFrame.map, LoopState.binary32, DetectionResult.binary32,
      SectorResult.binary32, hsentinel]
  rw [process, process, hinitial]
  exact congrArg LoopState.result (hloop frame.points (initialLoop frame) h)

theorem normalizeAngle_toDegrees (k : UInt16) :
    normalizeAngle (Value.finite (toDegrees k)) = .finite (normalizeAngle (toDegrees k)) := by
  have hhalf : ((180 : ℤ) : Value) = .finite 180 := by decide +kernel
  have hturn : ((360 : ℤ) : Value) = .finite 360 := by decide +kernel
  rw [normalizeAngle, normalizeAngle_eq, hhalf, hturn]
  simp only [Value.finite_lt]
  split_ifs with hbehind
  · change Value.round (toDegrees k - 360) = _
    have hlt := k.toNat_lt
    have hexact : toDegrees k - 360 =
        ((45 * ((k.toNat : ℤ) - 65536) : ℤ) : ℚ) * 2 ^ (-13 : ℤ) := by
      rw [toDegrees_eq]
      push_cast
      norm_num
      ring
    rw [toDegrees_eq] at hbehind
    have hfar : 32768 < k.toNat := by
      have : (32768 : ℚ) < k.toNat := by linarith
      exact_mod_cast this
    rw [hexact]
    refine Value.round_significand ?_ (by norm_num) (by norm_num)
    rw [abs_lt]
    omega
  · rfl

/-- On what the sensor reports only the quotients are rounded. -/
theorem unrounded_reading {config : PerceptionConfig ℚ} {k : UInt16} {distanceMm : ℚ}
    {quality : UInt8}
    (h : Accepted config ⟨toDegrees k, distanceMm, quality⟩ →
      sectorIndex config.binary32 (.finite (normalizeAngle (toDegrees k))) =
        sectorIndex config (normalizeAngle (toDegrees k))) :
    Unrounded config ⟨toDegrees k, distanceMm, quality⟩ :=
  ⟨normalizeAngle_toDegrees k, h⟩

end AebNode.Perception

namespace AebNode.Application
open Perception Binary32

/-- The callback hands on the message of the exact decision, where rounding changes no point. -/
theorem lidarCallback_binary32 {config : PerceptionConfig ℚ} {frame : ScanFrame ℚ} (noCan : Bool)
    (publish : Except Exception Unit) (h : ∀ p ∈ frame.points, Unrounded config p) :
    lidarCallback noCan config.binary32 publish (frame.map .finite) =
      lidarCallback noCan config publish frame := by
  have hsame : obstacle (process config.binary32 (frame.map .finite)) =
      obstacle (process config frame) := by
    rw [process_binary32 h]
    rfl
  cases publish with
  | error e => rfl
  | ok _ => rw [lidarCallback_ok, lidarCallback_ok, hsame]

/-- With finite thresholds and bearings from the sensor only a quotient that is carried to another
sector can make the message differ from that of the exact decision. -/
theorem lidarCallback_stored {t : CommandLine.Thresholds} {frame : ScanFrame ℚ} (noCan : Bool)
    (publish : Except Exception Unit) (hfinite : t.Finite)
    (hbearings : ∀ p ∈ frame.points, ∃ k, p.angleDeg = toDegrees k)
    (hsectors : ∀ p ∈ frame.points, Accepted t.config p →
      sectorIndex t.stored (.finite (normalizeAngle p.angleDeg)) =
        sectorIndex t.config (normalizeAngle p.angleDeg)) :
    lidarCallback noCan t.stored publish (frame.map .finite) =
      lidarCallback noCan t.config publish frame := by
  rw [stored_eq hfinite] at hsectors ⊢
  refine lidarCallback_binary32 noCan publish fun p hp => ?_
  obtain ⟨angleDeg, distanceMm, quality⟩ := p
  obtain ⟨k, rfl⟩ : ∃ k, angleDeg = toDegrees k := hbearings _ hp
  exact unrounded_reading (hsectors _ hp)

end AebNode.Application
