import AebNode.PerceptionLoop

/-! What a sector result promises its readers: the sentinels while nothing is detected, and a
range and a bearing of its own sector once something is. The loop is that of the node, in
binary32, whose quotients are rounded and may be carried across the end of a sector. -/
namespace AebNode.Perception
open Binary32

/-- The conversion of the quotient is defined for each point that comes to it. -/
def Converts (config : PerceptionConfig Value) (points : List (ScanPoint Value)) : Prop :=
  ∀ p ∈ points, PassesQuality config p →
    (sectorQuotient config (normalizeAngle p.angleDeg)).toInt ≠ none

instance (config : PerceptionConfig Value) : DecidablePred (Converts config) :=
  fun _ => inferInstanceAs (Decidable (∀ p ∈ _, _))

/-- The limits and the bearing are numbers, and related so. -/
def Numbers (config : PerceptionConfig Value) (bearing : Value) (R : ℚ → ℚ → ℚ → Prop) : Prop :=
  ∃ low high n, config.minAngleDeg = .finite low ∧ config.maxAngleDeg = .finite high ∧
    bearing = .finite n ∧ R low high n

/-- The bearing at which sector `i` begins; sector `i` ends where `i + 1` begins. -/
def sectorStart (low high : ℚ) (i : ℕ) : ℚ := low + i * ((high - low) / 5)

/-- The bearings of sector `i`; the upper limit of the field of view belongs to the last. -/
def WithinSector (config : PerceptionConfig Value) (i : Fin 5) (bearing : Value) : Prop :=
  Numbers config bearing fun low high n => sectorStart low high i ≤ n ∧
    (n < sectorStart low high (i + 1) ∨ (i : ℕ) = 4 ∧ n ≤ high)

/-- The documented meaning of one sector of a result. -/
structure Documented (config : PerceptionConfig Value) (i : Fin 5)
    (sector : SectorResult Value) : Prop where
  clear : sector.obstacleDetected = false →
    sector.nearestDistanceMm = ((-1 : ℤ) : Value) ∧ sector.nearestAngleDeg = ((0 : ℤ) : Value)
  obstacle : sector.obstacleDetected = true →
    ((0 : ℤ) : Value) < sector.nearestDistanceMm ∧
      sector.nearestDistanceMm ≤ config.maxDistanceMm ∧
      WithinSector config i sector.nearestAngleDeg

def exactSector (low high n : ℚ) : ℕ := min 4 ⌊5 * (n - low) / (high - low)⌋₊

/-- What a sector needs to be as documented: no points, or as many as the threshold asks for, the
nearest of which compares with the range and is not carried here from another sector. -/
def Consistent (config : PerceptionConfig Value) (points : List (ScanPoint Value))
    (i : Fin 5) : Prop :=
  hitsOf config points i = [] ∨
    config.minHitsPerSector.toNat ≤ (hitsOf config points i).length ∧
      ∀ p, nearestHit (hitsOf config points i) = some p →
        p.distanceMm ≠ .nan ∧ config.maxDistanceMm ≠ .nan ∧
          Numbers config (normalizeAngle p.angleDeg) fun low high n => exactSector low high n = i

/-- Between the limits the bounds of a sector are those of its exact index. -/
theorem within_iff {low high n : ℚ} (hlow : low ≤ n) (hhigh : n ≤ high) (hfov : low < high)
    (i : Fin 5) :
    (sectorStart low high i ≤ n ∧
      (n < sectorStart low high (i + 1) ∨ (i : ℕ) = 4 ∧ n ≤ high)) ↔
        exactSector low high n = i := by
  have hspan : 0 < high - low := sub_pos.mpr hfov
  have hquotient : 0 ≤ 5 * (n - low) / (high - low) := div_nonneg (by linarith) hspan.le
  have hstart : ∀ k : ℕ, sectorStart low high k ≤ n ↔ k ≤ ⌊5 * (n - low) / (high - low)⌋₊ := by
    intro k
    rw [Nat.le_floor_iff hquotient, le_div_iff₀ hspan, sectorStart]
    constructor <;> intro h <;> linarith
  have hend : n < sectorStart low high (i + 1) ↔
      ⌊5 * (n - low) / (high - low)⌋₊ < (i : ℕ) + 1 := by
    rw [← not_le, ← not_le]
    exact not_congr (hstart _)
  rw [hstart, hend, exactSector]
  simp only [hhigh, and_true]
  omega

theorem PassesQuality.numbers {config : PerceptionConfig Value} {p : ScanPoint Value}
    (h : PassesQuality config p) {low high n : ℚ} (hlow : config.minAngleDeg = .finite low)
    (hhigh : config.maxAngleDeg = .finite high)
    (hn : normalizeAngle p.angleDeg = .finite n) : low ≤ n ∧ n ≤ high := by
  have hangle := h.1.1.2
  rw [hlow, hhigh, hn, not_or, Value.finite_lt, Value.finite_lt, not_lt, not_lt] at hangle
  exact hangle

theorem withinSector_iff {config : PerceptionConfig Value} {p : ScanPoint Value}
    (hfov : config.minAngleDeg < config.maxAngleDeg) (h : PassesQuality config p) (i : Fin 5) :
    WithinSector config i (normalizeAngle p.angleDeg) ↔
      Numbers config (normalizeAngle p.angleDeg) fun low high n => exactSector low high n = i := by
  refine exists_congr fun low => exists_congr fun high => exists_congr fun n => ?_
  refine and_congr_right fun hlow => and_congr_right fun hhigh => and_congr_right fun hn => ?_
  have hbetween := h.numbers hlow hhigh hn
  rw [hlow, hhigh, Value.finite_lt] at hfov
  exact within_iff hbetween.1 hbetween.2 hfov i

theorem sector_documented_iff {config : PerceptionConfig Value} (frame : ScanFrame Value)
    (hfov : config.minAngleDeg < config.maxAngleDeg) (i : Fin 5) :
    Documented config i ((process config frame).sector i) ↔ Consistent config frame.points i := by
  have hs : Tracked config frame.points _ := loop_tracked config frame frame.points
  have hdetected : ((process config frame).sector i).obstacleDetected = true ↔ _ :=
    hs.detected i
  have hnearest : ((process config frame).sector i).nearestDistanceMm = _ := hs.nearest i
  have hbearing : ((process config frame).sector i).nearestAngleDeg = _ := hs.bearing i
  by_cases hempty : hitsOf config frame.points i = []
  · refine iff_of_true ⟨fun _ => ?_, fun hobstacle => ?_⟩ (Or.inl hempty)
    · rw [hnearest, hbearing, hempty]
      exact ⟨rfl, rfl⟩
    · rw [hdetected, hempty, List.length_nil] at hobstacle
      omega
  obtain ⟨p, hp⟩ := nearestHit_isSome hempty
  obtain ⟨-, hpasses, -⟩ := mem_hitsOf.mp (nearestHit_mem hp)
  have hpositive : ¬ p.distanceMm ≤ ((0 : ℤ) : Value) := hpasses.1.1.1
  rw [hitDistance, hp, Option.elim_some] at hnearest
  rw [hitAngle, hp, Option.elim_some] at hbearing
  have hlength := List.length_pos_iff.mpr hempty
  constructor
  · intro h
    refine Or.inr ?_
    have hmany : config.minHitsPerSector.toNat ≤ (hitsOf config frame.points i).length := by
      by_contra hfew
      have hclear : ((process config frame).sector i).obstacleDetected = false := by
        rw [← Bool.not_eq_true, hdetected]
        omega
      have hsentinel := (h.clear hclear).1
      rw [hnearest] at hsentinel
      rw [hsentinel] at hpositive
      exact hpositive (SignedSentinel.le_of_lt SignedSentinel.sentinel_lt)
    obtain ⟨-, hrange, hwithin⟩ := h.obstacle (hdetected.mpr (by omega))
    rw [hnearest] at hrange
    rw [hbearing, withinSector_iff hfov hpasses] at hwithin
    refine ⟨hmany, fun q hq => ?_⟩
    obtain rfl : p = q := Option.some.inj (hp.symm.trans hq)
    exact ⟨(Value.ne_nan_of_le hrange).1, (Value.ne_nan_of_le hrange).2, hwithin⟩
  · intro h
    obtain ⟨hmany, hplaced⟩ := h.resolve_left hempty
    obtain ⟨hdistance, hlimit, hplace⟩ := hplaced p hp
    have hobstacle := hdetected.mpr (max_le hlength hmany)
    refine ⟨fun hclear => absurd hobstacle (by simp [hclear]), fun _ => ?_⟩
    rw [hnearest, hbearing, withinSector_iff hfov hpasses]
    exact ⟨Value.lt_of_not_le hdistance (by decide +kernel) hpositive,
      Value.le_of_not_lt hlimit hdistance hpasses.1.2, hplace⟩

/-- The loop is defined on a frame and its result as documented exactly if the conversions are
defined and no sector is left with points below the threshold, with a nearest point that compares
with nothing or with one that rounding carried into the sector. -/
theorem result_documented_iff {config : PerceptionConfig Value} (frame : ScanFrame Value)
    (hfov : config.minAngleDeg < config.maxAngleDeg) :
    (Converts config frame.points ∧ ∀ i, Documented config i ((process config frame).sector i)) ↔
      Converts config frame.points ∧ ∀ i, Consistent config frame.points i :=
  and_congr_right fun _ => forall_congr' fun i => sector_documented_iff frame hfov i

def obstacleReturns : ScanFrame Value :=
  ⟨0, 7, [⟨.finite 350, .finite 500, 20⟩, ⟨.finite 349, .finite 400, 20⟩,
    ⟨.finite 348, .finite 400, 20⟩]⟩

/-- They reach the default threshold. -/
theorem result_documented_obstacleReturns :
    Documented {} 1 ((process {} obstacleReturns).sector 1) ∧
      ((process {} obstacleReturns).sector 1).obstacleDetected = true := by
  have hnearest : nearestHit (hitsOf {} obstacleReturns.points 1) =
      some ⟨.finite 349, .finite 400, 20⟩ := by decide +kernel
  have hplaced : ∀ p, nearestHit (hitsOf {} obstacleReturns.points 1) = some p →
      p.distanceMm ≠ .nan ∧ ({} : PerceptionConfig Value).maxDistanceMm ≠ .nan ∧
        Numbers {} (normalizeAngle p.angleDeg) fun low high n => exactSector low high n = 1 := by
    intro p hp
    obtain rfl := Option.some.inj (hnearest.symm.trans hp)
    exact ⟨by decide, by decide +kernel, -45, 45, -11, by decide +kernel, by decide +kernel,
      by decide +kernel, by decide +kernel⟩
  have hall := (@result_documented_iff {} obstacleReturns (by decide +kernel)).mpr
    ⟨by decide +kernel, fun i => by
      fin_cases i
      case «1» => exact Or.inr ⟨by decide +kernel, hplaced⟩
      all_goals exact Or.inl (by decide +kernel)⟩
  exact ⟨hall.2 1, by decide +kernel⟩

/-- A single return ahead is below the default threshold of three: the sector reports no
obstacle, and a range and a bearing all the same. -/
theorem single_return_undocumented :
    let frame : ScanFrame Value := ⟨0, 7, [⟨.finite 0, .finite 500, 20⟩]⟩
    Converts {} frame.points ∧
      ((process {} frame).sector 2).obstacleDetected = false ∧
      ((process {} frame).sector 2).nearestDistanceMm = .finite 500 ∧
      ¬ ∀ i, Documented {} i ((process {} frame).sector i) := by
  intro frame
  have hclear : ((process {} frame).sector 2).obstacleDetected = false := by decide +kernel
  have hnearest : ((process {} frame).sector 2).nearestDistanceMm = .finite 500 := by
    decide +kernel
  refine ⟨by decide +kernel, hclear, hnearest, fun h => ?_⟩
  have hsentinel := ((h 2).clear hclear).1
  rw [hnearest] at hsentinel
  revert hsentinel
  decide +kernel

/-- Three returns just below 9 degrees, where the fourth sector begins: their quotient rounds up to
three, and they are seen there. -/
example :
    let p : ScanPoint Value := ⟨.ofBits 0x410FFFFF, .finite 500, 20⟩
    let sector := (process {} ⟨0, 7, [p, p, p]⟩).sector 3
    sector.obstacleDetected = true ∧ sector.nearestAngleDeg < .finite 9 := by decide +kernel

end AebNode.Perception
