import AebNode.Perception

/-! What the loop computes over the whole frame, in any arithmetic: the sizes of three nested
filters, and for each sector the points that reach it, in the order of the frame, and the earliest
of the nearest. -/
namespace AebNode.Perception
open Binary32

/-- The sentinel of a sector without points is told from a distance by its sign. -/
class SignedSentinel (α : Type) [IntCast α] [LT α] [LE α] : Prop where
  sentinel_lt : ((-1 : ℤ) : α) < ((0 : ℤ) : α)
  le_of_lt : ∀ {a b : α}, a < b → a ≤ b

instance : SignedSentinel ℚ := ⟨by norm_num, fun h => h.le⟩

instance : SignedSentinel Value where
  sentinel_lt := by decide +kernel
  le_of_lt {a b} h := by
    cases a <;> cases b
    case finite.finite => exact (Value.finite_lt.mp h).le
    case infinity.infinity => exact Or.inl h.1
    all_goals exact h

section Nearest
variable {α : Type} [LT α] [DecidableLT α]

def nearer (c p : ScanPoint α) : ScanPoint α := if p.distanceMm < c.distanceMm then p else c

/-- The earliest of the nearest points. -/
def nearestHit : List (ScanPoint α) → Option (ScanPoint α)
  | [] => none
  | p :: points => some (points.foldl nearer p)

theorem nearestHit_concat (points : List (ScanPoint α)) (p : ScanPoint α) :
    nearestHit (points ++ [p]) = some ((nearestHit points).elim p fun c => nearer c p) := by
  cases points with
  | nil => rfl
  | cons first points => simp [nearestHit]

theorem nearestHit_mem {points : List (ScanPoint α)} {p : ScanPoint α}
    (h : nearestHit points = some p) : p ∈ points := by
  induction points using List.reverseRecOn generalizing p with
  | nil => cases h
  | append_singleton points q ih =>
    rw [nearestHit_concat, Option.some.injEq] at h
    subst h
    cases hc : nearestHit points with
    | none => simp
    | some c =>
      have hmem := ih hc
      simp only [Option.elim_some, nearer]
      split_ifs <;> simp [hmem]

theorem nearestHit_isSome {points : List (ScanPoint α)} (h : points ≠ []) :
    ∃ p, nearestHit points = some p := by
  cases points with
  | nil => exact absurd rfl h
  | cons first points => exact ⟨_, rfl⟩

end Nearest

section Sectors
variable {α : Type} [IntCast α]

@[simp] theorem passAngle_sector (s : LoopState α) :
    s.passAngle.result.sector = s.result.sector := by
  funext i
  fin_cases i <;> rfl

@[simp] theorem passDistance_sector (s : LoopState α) :
    s.passDistance.result.sector = s.result.sector := by
  funext i
  fin_cases i <;> rfl

@[simp] theorem passQuality_sector (s : LoopState α) :
    s.passQuality.result.sector = s.result.sector := by
  funext i
  fin_cases i <;> rfl

variable [LT α] [DecidableLT α]

theorem trackNearest_distance (config : PerceptionConfig α) (v : SectorResult α) (hits : UInt32)
    (p : ScanPoint α) (n : α) : (trackNearest config v hits p n).nearestDistanceMm =
      if p.distanceMm < v.nearestDistanceMm ∨ v.nearestDistanceMm < ((0 : ℤ) : α) then
        p.distanceMm
      else v.nearestDistanceMm := by
  unfold trackNearest
  dsimp only
  split_ifs <;> rfl

theorem trackNearest_angle (config : PerceptionConfig α) (v : SectorResult α) (hits : UInt32)
    (p : ScanPoint α) (n : α) : (trackNearest config v hits p n).nearestAngleDeg =
      if p.distanceMm < v.nearestDistanceMm ∨ v.nearestDistanceMm < ((0 : ℤ) : α) then n
      else v.nearestAngleDeg := by
  unfold trackNearest
  dsimp only
  split_ifs <;> rfl

theorem trackNearest_detected (config : PerceptionConfig α) (v : SectorResult α) (hits : UInt32)
    (p : ScanPoint α) (n : α) : (trackNearest config v hits p n).obstacleDetected = true ↔
      v.obstacleDetected = true ∨ config.minHitsPerSector ≤ hits := by
  unfold trackNearest
  dsimp only
  split_ifs <;> simp_all

end Sectors

section Arithmetic
variable {α : Type} [IntCast α] [LT α] [LE α] [DecidableLT α] [Sub α]

def hitDistance (points : List (ScanPoint α)) : α :=
  (nearestHit points).elim ((-1 : ℤ) : α) ScanPoint.distanceMm

def hitAngle (points : List (ScanPoint α)) : α :=
  (nearestHit points).elim ((0 : ℤ) : α) fun p => normalizeAngle p.angleDeg

/-- The running comparison against the sentinel keeps the earliest nearest point: a hit
replaces the stored one exactly when it is the first or strictly nearer. -/
theorem nearest_concat [SignedSentinel α] {points : List (ScanPoint α)} (p : ScanPoint α)
    (hpos : ∀ c ∈ points, ¬ c.distanceMm ≤ ((0 : ℤ) : α)) :
    hitDistance (points ++ [p]) =
      (if p.distanceMm < hitDistance points ∨ hitDistance points < ((0 : ℤ) : α) then
        p.distanceMm
      else hitDistance points) ∧
    hitAngle (points ++ [p]) =
      (if p.distanceMm < hitDistance points ∨ hitDistance points < ((0 : ℤ) : α) then
        normalizeAngle p.angleDeg
      else hitAngle points) := by
  unfold hitDistance hitAngle
  rw [nearestHit_concat]
  cases hc : nearestHit points with
  | none => simp [SignedSentinel.sentinel_lt]
  | some c =>
    have hcpos : ¬ c.distanceMm < ((0 : ℤ) : α) :=
      mt SignedSentinel.le_of_lt (hpos c (nearestHit_mem hc))
    by_cases hlt : p.distanceMm < c.distanceMm <;> simp [nearer, hlt, hcpos]

variable [DecidableLE α] [Div α] [ToInt α]

def PassesAngle (config : PerceptionConfig α) (p : ScanPoint α) : Prop :=
  ¬ p.distanceMm ≤ ((0 : ℤ) : α) ∧
    ¬ (normalizeAngle p.angleDeg < config.minAngleDeg ∨
      config.maxAngleDeg < normalizeAngle p.angleDeg)

def PassesDistance (config : PerceptionConfig α) (p : ScanPoint α) : Prop :=
  PassesAngle config p ∧ ¬ config.maxDistanceMm < p.distanceMm

def PassesQuality (config : PerceptionConfig α) (p : ScanPoint α) : Prop :=
  PassesDistance config p ∧ ¬ p.quality < config.minimumQuality

instance (config : PerceptionConfig α) : DecidablePred (PassesAngle config) :=
  fun _ => inferInstanceAs (Decidable (_ ∧ _))

instance (config : PerceptionConfig α) : DecidablePred (PassesDistance config) :=
  fun _ => inferInstanceAs (Decidable (_ ∧ _))

instance (config : PerceptionConfig α) : DecidablePred (PassesQuality config) :=
  fun _ => inferInstanceAs (Decidable (_ ∧ _))

def hitsOf (config : PerceptionConfig α) (points : List (ScanPoint α)) (i : Fin 5) :
    List (ScanPoint α) :=
  points.filter fun p => PassesQuality config p ∧
    sectorIndex config (normalizeAngle p.angleDeg) = i

theorem mem_hitsOf {config : PerceptionConfig α} {points : List (ScanPoint α)} {p : ScanPoint α}
    {i : Fin 5} : p ∈ hitsOf config points i ↔ p ∈ points ∧ PassesQuality config p ∧
      sectorIndex config (normalizeAngle p.angleDeg) = i := by
  simp [hitsOf]

theorem hitsOf_concat (config : PerceptionConfig α) (points : List (ScanPoint α))
    (p : ScanPoint α) (i : Fin 5) : hitsOf config (points ++ [p]) i =
      if PassesQuality config p ∧ sectorIndex config (normalizeAngle p.angleDeg) = i then
        hitsOf config points i ++ [p]
      else hitsOf config points i := by
  unfold hitsOf
  rw [List.filter_append, List.filter_singleton]
  by_cases h : PassesQuality config p ∧ sectorIndex config (normalizeAngle p.angleDeg) = i <;>
    simp [h]

theorem hitsOf_concat_rejected {config : PerceptionConfig α} {p : ScanPoint α}
    (points : List (ScanPoint α)) (i : Fin 5) (h : ¬ PassesQuality config p) :
    hitsOf config (points ++ [p]) i = hitsOf config points i := by
  rw [hitsOf_concat, if_neg fun hp => h hp.1]

theorem processPoint_eq (config : PerceptionConfig α) (s : LoopState α) (p : ScanPoint α) :
    processPoint config s p =
      if PassesQuality config p then
        recordHit config s.passAngle.passDistance.passQuality p (normalizeAngle p.angleDeg)
      else if PassesDistance config p then s.passAngle.passDistance
      else if PassesAngle config p then s.passAngle
      else s := by
  unfold processPoint PassesQuality PassesDistance PassesAngle
  by_cases hdistance : p.distanceMm ≤ ((0 : ℤ) : α)
  · simp [hdistance]
  by_cases hangle : normalizeAngle p.angleDeg < config.minAngleDeg ∨
      config.maxAngleDeg < normalizeAngle p.angleDeg
  · simp [hdistance, hangle]
  by_cases hrange : config.maxDistanceMm < p.distanceMm
  · simp [hdistance, hangle, hrange]
  by_cases hquality : p.quality < config.minimumQuality <;>
    simp [hdistance, hangle, hrange, hquality]

/-- The loop variables after a prefix of the frame. -/
structure Tracked (config : PerceptionConfig α) (points : List (ScanPoint α))
    (s : LoopState α) : Prop where
  angle : s.result.angleFilteredPoints = UInt32.ofNat (points.countP (PassesAngle config))
  distance : s.result.distanceFilteredPoints =
    UInt32.ofNat (points.countP (PassesDistance config))
  quality : s.result.qualityFilteredPoints = UInt32.ofNat (points.countP (PassesQuality config))
  hits : ∀ i, s.sectorHits i = UInt32.ofNat (hitsOf config points i).length
  nearest : ∀ i, (s.result.sector i).nearestDistanceMm = hitDistance (hitsOf config points i)
  bearing : ∀ i, (s.result.sector i).nearestAngleDeg = hitAngle (hitsOf config points i)
  detected : ∀ i, (s.result.sector i).obstacleDetected = true ↔
    max 1 config.minHitsPerSector.toNat ≤ (hitsOf config points i).length

theorem initialLoop_tracked (config : PerceptionConfig α) (frame : ScanFrame α) :
    Tracked config [] (initialLoop frame) := by
  constructor <;> try (intro i; fin_cases i)
  all_goals simp [initialLoop, hitsOf, hitDistance, hitAngle, nearestHit,
    DetectionResult.sector]

theorem hitsOf_pos {config : PerceptionConfig α} {points : List (ScanPoint α)} {i : Fin 5} :
    ∀ c ∈ hitsOf config points i, ¬ c.distanceMm ≤ ((0 : ℤ) : α) := fun _ hc =>
  (mem_hitsOf.mp hc).2.1.1.1.1

/-- A rejected point may move the counters but leaves every sector as it was. -/
theorem Tracked.rejected {config : PerceptionConfig α} {points : List (ScanPoint α)}
    {s t : LoopState α} {p : ScanPoint α} (hs : Tracked config points s)
    (h : ¬ PassesQuality config p) (hhits : t.sectorHits = s.sectorHits)
    (hsector : t.result.sector = s.result.sector)
    (hangle : t.result.angleFilteredPoints =
      s.result.angleFilteredPoints + if PassesAngle config p then 1 else 0)
    (hdistance : t.result.distanceFilteredPoints =
      s.result.distanceFilteredPoints + if PassesDistance config p then 1 else 0)
    (hquality : t.result.qualityFilteredPoints = s.result.qualityFilteredPoints) :
    Tracked config (points ++ [p]) t where
  angle := by
    rw [hangle, hs.angle, List.countP_append, List.countP_singleton, UInt32.ofNat_add]
    by_cases hp : PassesAngle config p <;> simp [hp]
  distance := by
    rw [hdistance, hs.distance, List.countP_append, List.countP_singleton, UInt32.ofNat_add]
    by_cases hp : PassesDistance config p <;> simp [hp]
  quality := by
    rw [hquality, hs.quality, List.countP_append, List.countP_singleton]
    simp [h]
  hits i := by rw [hhits, hs.hits, hitsOf_concat_rejected _ _ h]
  nearest i := by rw [hsector, hs.nearest, hitsOf_concat_rejected _ _ h]
  bearing i := by rw [hsector, hs.bearing, hitsOf_concat_rejected _ _ h]
  detected i := by rw [hsector, hs.detected, hitsOf_concat_rejected _ _ h]

theorem Tracked.accepted [SignedSentinel α] {config : PerceptionConfig α}
    {points : List (ScanPoint α)} {s : LoopState α} {p : ScanPoint α}
    (hs : Tracked config points s) (h : PassesQuality config p) :
    Tracked config (points ++ [p])
      (recordHit config s.passAngle.passDistance.passQuality p
        (normalizeAngle p.angleDeg)) := by
  let k := sectorIndex config (normalizeAngle p.angleDeg)
  let t := recordHit config s.passAngle.passDistance.passQuality p (normalizeAngle p.angleDeg)
  have hown : hitsOf config (points ++ [p]) k = hitsOf config points k ++ [p] := by
    rw [hitsOf_concat, if_pos ⟨h, rfl⟩]
  have hother : ∀ i, i ≠ k → hitsOf config (points ++ [p]) i = hitsOf config points i := by
    intro i hi
    rw [hitsOf_concat, if_neg fun hp => hi hp.2.symm]
  have hhits : t.sectorHits = Function.update s.sectorHits k (s.sectorHits k + 1) := rfl
  have hsector : t.result.sector = Function.update s.result.sector k
      (trackNearest config (s.result.sector k) (s.sectorHits k + 1) p
        (normalizeAngle p.angleDeg)) := by
    simp only [t, recordHit, DetectionResult.sector_setSector, passQuality_sector,
      passDistance_sector, passAngle_sector]
    rfl
  have hcount : (s.sectorHits k + 1).toNat =
      ((hitsOf config points k).length + 1) % 2 ^ 32 := by
    rw [hs.hits, UInt32.toNat_add, UInt32.toNat_ofNat', UInt32.toNat_one]
    omega
  obtain ⟨hdist, hangle⟩ := nearest_concat p (@hitsOf_pos _ _ _ _ _ _ _ _ _ config points k)
  constructor
  case angle => simp [recordHit, LoopState.passAngle, LoopState.passDistance,
    LoopState.passQuality, hs.angle, h.1.1]
  case distance => simp [recordHit, LoopState.passAngle, LoopState.passDistance,
    LoopState.passQuality, hs.distance, h.1]
  case quality => simp [recordHit, LoopState.passAngle, LoopState.passDistance,
    LoopState.passQuality, hs.quality, h]
  all_goals intro i
  case hits =>
    change t.sectorHits i = _
    rw [hhits]
    by_cases hi : i = k
    · subst hi
      rw [Function.update_self, hown, hs.hits, List.length_append, UInt32.ofNat_add]
      rfl
    · rw [Function.update_of_ne hi, hs.hits, hother i hi]
  case nearest =>
    change (t.result.sector i).nearestDistanceMm = _
    rw [hsector]
    by_cases hi : i = k
    · subst hi
      rw [Function.update_self, trackNearest_distance, hs.nearest, hown, hdist]
    · rw [Function.update_of_ne hi, hs.nearest, hother i hi]
  case bearing =>
    change (t.result.sector i).nearestAngleDeg = _
    rw [hsector]
    by_cases hi : i = k
    · subst hi
      rw [Function.update_self, trackNearest_angle, hs.nearest, hs.bearing, hown, hangle]
    · rw [Function.update_of_ne hi, hs.bearing, hother i hi]
  case detected =>
    change (t.result.sector i).obstacleDetected = true ↔ _
    rw [hsector]
    by_cases hi : i = k
    · subst hi
      rw [Function.update_self, trackNearest_detected, hs.detected, hown,
        UInt32.le_iff_toNat_le, hcount, List.length_append, List.length_singleton]
      -- The threshold is below 2 ^ 32, so the counter meets it before it can wrap around.
      have hbound := config.minHitsPerSector.toNat_lt
      omega
    · rw [Function.update_of_ne hi, hs.detected, hother i hi]

theorem processPoint_tracked [SignedSentinel α] {config : PerceptionConfig α}
    {points : List (ScanPoint α)} {s : LoopState α} (hs : Tracked config points s)
    (p : ScanPoint α) : Tracked config (points ++ [p]) (processPoint config s p) := by
  rw [processPoint_eq]
  by_cases hquality : PassesQuality config p
  · rw [if_pos hquality]
    exact hs.accepted hquality
  rw [if_neg hquality]
  by_cases hdistance : PassesDistance config p
  · rw [if_pos hdistance]
    exact hs.rejected hquality rfl (by simp)
      (by simp [LoopState.passDistance, LoopState.passAngle, hdistance.1])
      (by simp [LoopState.passDistance, LoopState.passAngle, hdistance]) rfl
  rw [if_neg hdistance]
  by_cases hangle : PassesAngle config p
  · rw [if_pos hangle]
    exact hs.rejected hquality rfl (by simp) (by simp [LoopState.passAngle, hangle])
      (by simp [LoopState.passAngle, hdistance]) rfl
  · rw [if_neg hangle]
    exact hs.rejected hquality rfl rfl (by simp [hangle]) (by simp [hdistance]) rfl

/-- The loop agrees with the specification after every prefix of the frame. -/
theorem loop_tracked [SignedSentinel α] (config : PerceptionConfig α) (frame : ScanFrame α)
    (points : List (ScanPoint α)) :
    Tracked config points (points.foldl (processPoint config) (initialLoop frame)) := by
  induction points using List.reverseRecOn with
  | nil => exact initialLoop_tracked config frame
  | append_singleton points p ih =>
    rw [List.foldl_append, List.foldl_cons, List.foldl_nil]
    exact processPoint_tracked ih p

end Arithmetic

end AebNode.Perception
