import AebNode.PerceptionSectors

/-! More evidence never cancels a detection. Every sector depends on the frame through the
multiset of its accepted points alone, and looser thresholds only add to it. -/
namespace AebNode.Perception

/-- The same field of view with thresholds that let through at least as much. -/
structure Looser (c d : PerceptionConfig ℚ) : Prop where
  minAngle : d.minAngleDeg = c.minAngleDeg
  maxAngle : d.maxAngleDeg = c.maxAngleDeg
  distance : c.maxDistanceMm ≤ d.maxDistanceMm
  quality : d.minimumQuality ≤ c.minimumQuality
  hits : d.minHitsPerSector ≤ c.minHitsPerSector

theorem Looser.accepted {c d : PerceptionConfig ℚ} (h : Looser c d) {p : ScanPoint ℚ}
    (hp : Accepted c p) : Accepted d p := by
  obtain ⟨⟨⟨hpos, hmin, hmax⟩, hdistance⟩, hquality⟩ := hp
  refine ⟨⟨⟨hpos, ?_, ?_⟩, hdistance.trans h.distance⟩, UInt8.le_trans h.quality hquality⟩
  · rwa [h.minAngle]
  · rwa [h.maxAngle]

theorem Looser.sectorOf {c d : PerceptionConfig ℚ} (h : Looser c d) (p : ScanPoint ℚ) :
    sectorOf d p = sectorOf c p := by
  rw [Perception.sectorOf, Perception.sectorOf, h.minAngle, h.maxAngle]

/-- The accepted points of a sector grow with the frame and with the thresholds. -/
theorem sectorPoints_subperm {c d : PerceptionConfig ℚ} (h : Looser c d)
    {points more : List (ScanPoint ℚ)} (hsub : points.Subperm more) (i : Fin 5) :
    (sectorPoints c points i).Subperm (sectorPoints d more i) := by
  have hthresholds : (sectorPoints c more i).Sublist (sectorPoints d more i) := by
    apply List.monotone_filter_right
    intro p hp
    simp only [decide_eq_true_eq] at hp ⊢
    exact ⟨h.accepted hp.1, (h.sectorOf p).trans hp.2⟩
  exact (hsub.filter _).trans hthresholds.subperm

theorem nearestDistance_exists {points : List (ScanPoint ℚ)} {p : ScanPoint ℚ}
    (hp : p ∈ points) : ∃ q ∈ points, nearestDistance points = q.distanceMm := by
  cases h : nearestPoint points with
  | some q => exact ⟨q, nearestPoint_mem h, by rw [nearestDistance, h, Option.elim_some]⟩
  | none =>
    rw [nearestPoint, List.argmin_eq_none] at h
    rw [h] at hp
    cases hp

theorem nearestDistance_le {points : List (ScanPoint ℚ)} {p : ScanPoint ℚ} (hp : p ∈ points) :
    nearestDistance points ≤ p.distanceMm := by
  cases h : nearestPoint points with
  | some q =>
    rw [nearestDistance, h, Option.elim_some]
    exact List.le_of_mem_argmin hp h
  | none =>
    rw [nearestPoint, List.argmin_eq_none] at h
    rw [h] at hp
    cases hp

theorem nearestDistance_ne_iff {points : List (ScanPoint ℚ)}
    (hpos : ∀ p ∈ points, 0 < p.distanceMm) : nearestDistance points ≠ -1 ↔ points ≠ [] := by
  constructor
  · rintro h rfl
    exact h rfl
  · intro h
    obtain ⟨p, hp⟩ := List.exists_mem_of_ne_nil points h
    obtain ⟨q, hq, hnearest⟩ := nearestDistance_exists hp
    have hqpos := hpos q hq
    rw [hnearest]
    linarith

theorem nearestDistance_mono {points more : List (ScanPoint ℚ)} (hsub : points ⊆ more)
    (h : points ≠ []) : nearestDistance more ≤ nearestDistance points := by
  obtain ⟨p, hp⟩ := List.exists_mem_of_ne_nil points h
  obtain ⟨q, hq, hnearest⟩ := nearestDistance_exists hp
  rw [hnearest]
  exact nearestDistance_le (hsub hq)

theorem nearestDistance_perm {points more : List (ScanPoint ℚ)} (h : points.Perm more) :
    nearestDistance points = nearestDistance more := by
  by_cases hempty : points = []
  · subst hempty
    rw [h.nil_eq]
  · have hmore : more ≠ [] := fun hm => hempty (List.perm_nil.mp (hm ▸ h))
    exact le_antisymm (nearestDistance_mono h.symm.subset hmore)
      (nearestDistance_mono h.subset hempty)

theorem processPoint_totalPoints (config : PerceptionConfig ℚ) (s : LoopState ℚ)
    (p : ScanPoint ℚ) : (processPoint config s p).result.totalPoints = s.result.totalPoints := by
  rw [processPoint_eq]
  split_ifs
  · rw [recordHit, DetectionResult.setSector_totalPoints]
    rfl
  all_goals rfl

theorem process_totalPoints (config : PerceptionConfig ℚ) (frame : ScanFrame ℚ) :
    (process config frame).totalPoints = UInt32.ofNat frame.points.length := by
  have hloop : ∀ (points : List (ScanPoint ℚ)) (s : LoopState ℚ),
      (points.foldl (processPoint config) s).result.totalPoints = s.result.totalPoints := by
    intro points
    induction points with
    | nil => exact fun s => rfl
    | cons p points ih =>
      intro s
      rw [List.foldl_cons, ih, processPoint_totalPoints]
  exact hloop frame.points (initialLoop frame)

/-- Detection is monotone in the points and in the thresholds, and blind to the order of the
points. -/
theorem detection_monotone {c d : PerceptionConfig ℚ} (h : Looser c d)
    (hfov : c.minAngleDeg < c.maxAngleDeg) {F G : ScanFrame ℚ}
    (hsub : F.points.Subperm G.points) :
    (∀ i, ((process c F).sector i).obstacleDetected = true →
      ((process d G).sector i).obstacleDetected = true) ∧
    (∀ i, ((process c F).sector i).nearestDistanceMm ≠ -1 →
      ((process d G).sector i).nearestDistanceMm ≠ -1 ∧
        ((process d G).sector i).nearestDistanceMm ≤
          ((process c F).sector i).nearestDistanceMm) ∧
    (G.points.Perm F.points → c = d →
      (∀ i, ((process d G).sector i).obstacleDetected =
          ((process c F).sector i).obstacleDetected ∧
        ((process d G).sector i).nearestDistanceMm =
          ((process c F).sector i).nearestDistanceMm) ∧
      (process d G).totalPoints = (process c F).totalPoints ∧
      (process d G).angleFilteredPoints = (process c F).angleFilteredPoints ∧
      (process d G).distanceFilteredPoints = (process c F).distanceFilteredPoints ∧
      (process d G).qualityFilteredPoints = (process c F).qualityFilteredPoints) := by
  have hF := loop_invariant F hfov F.points
  have hfov' : d.minAngleDeg < d.maxAngleDeg := by rwa [h.minAngle, h.maxAngle]
  have hG := loop_invariant G hfov' G.points
  refine ⟨?_, ?_, ?_⟩
  · intro i hdetected
    have hcount := (hF.detected i).mp hdetected
    have hlength := (sectorPoints_subperm h hsub i).length_le
    have hhits := UInt32.le_iff_toNat_le.mp h.hits
    exact (hG.detected i).mpr (by omega)
  · intro i hnearest
    have hsector := sectorPoints_subperm h hsub i
    have hFi : ((process c F).sector i).nearestDistanceMm = _ := hF.nearest i
    have hGi : ((process d G).sector i).nearestDistanceMm = _ := hG.nearest i
    rw [hFi, nearestDistance_ne_iff sectorPoints_pos] at hnearest
    rw [hFi, hGi, nearestDistance_ne_iff sectorPoints_pos]
    refine ⟨?_, nearestDistance_mono hsector.subset hnearest⟩
    intro hempty
    rw [hempty, List.subperm_nil] at hsector
    exact hnearest hsector
  · rintro hperm rfl
    have hsector : ∀ i, (sectorPoints c G.points i).Perm (sectorPoints c F.points i) :=
      fun i => hperm.filter _
    refine ⟨fun i => ⟨?_, ?_⟩, ?_, ?_, ?_, ?_⟩
    · have hiff := hG.detected i
      rw [(hsector i).length_eq] at hiff
      exact Bool.eq_iff_iff.mpr (hiff.trans (hF.detected i).symm)
    · exact (hG.nearest i).trans ((nearestDistance_perm (hsector i)).trans (hF.nearest i).symm)
    · rw [process_totalPoints, process_totalPoints, hperm.length_eq]
    · exact hG.angle.trans ((congrArg UInt32.ofNat (hperm.countP_eq _)).trans hF.angle.symm)
    · exact hG.distance.trans ((congrArg UInt32.ofNat (hperm.countP_eq _)).trans hF.distance.symm)
    · exact hG.quality.trans ((congrArg UInt32.ofNat (hperm.countP_eq _)).trans hF.quality.symm)

/-- Three returns that make the default configuration see an obstacle. -/
def obstacleFrame : ScanFrame ℚ := ⟨0, 7, [⟨350, 500, 20⟩, ⟨349, 400, 20⟩, ⟨348, 400, 20⟩]⟩

def longRange : PerceptionConfig ℚ := { maxDistanceMm := 3000 }

def nearerFrame : ScanFrame ℚ := ⟨1, 8, ⟨347, 300, 15⟩ :: obstacleFrame.points⟩

/-- With it and a longer range the obstacle is still seen, and nearer. -/
theorem detection_monotone_nearer :
    ((process longRange nearerFrame).sector 1).obstacleDetected = true ∧
      ((process longRange nearerFrame).sector 1).nearestDistanceMm ≤ 400 := by
  have hlooser : Looser {} longRange :=
    ⟨rfl, rfl, by decide +kernel, by decide, by decide⟩
  have hsub : obstacleFrame.points.Subperm nearerFrame.points :=
    (List.sublist_cons_self _ _).subperm
  obtain ⟨hdetected, hnearest, -⟩ :=
    @detection_monotone {} _ hlooser (by decide +kernel) obstacleFrame nearerFrame hsub
  have hdistance : ((process {} obstacleFrame).sector 1).nearestDistanceMm = 400 := by
    decide +kernel
  refine ⟨hdetected 1 (by decide +kernel), ?_⟩
  rw [← hdistance]
  exact (hnearest 1 (by rw [hdistance]; decide +kernel)).2

end AebNode.Perception
