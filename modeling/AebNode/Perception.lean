import AebNode.Types

/-! The perception loop: one pass over a frame that filters points by bearing, range and
quality and keeps, for each fifth of the field of view, the nearest hit and a hit count. It is
written once, for any arithmetic: that of binary32, in which the node computes, and the exact one
of the rationals. -/
namespace AebNode.Perception
open Binary32

/-- `static_cast<int>` as far as it is defined. -/
class ToInt (α : Type) where
  toInt : α → Option ℤ

instance : ToInt ℚ := ⟨fun q => some (truncate q)⟩

instance : ToInt Value := ⟨Value.toInt⟩

structure PerceptionConfig (α : Type) [IntCast α] where
  minAngleDeg : α := ((-45 : ℤ) : α)
  maxAngleDeg : α := ((45 : ℤ) : α)
  maxDistanceMm : α := ((2000 : ℤ) : α)
  minimumQuality : UInt8 := 15
  minHitsPerSector : UInt32 := 3
  deriving DecidableEq, Repr

structure SectorResult (α : Type) [IntCast α] where
  obstacleDetected : Bool := false
  nearestDistanceMm : α := ((-1 : ℤ) : α)
  nearestAngleDeg : α := ((0 : ℤ) : α)
  deriving DecidableEq, Repr

structure DetectionResult (α : Type) [IntCast α] where
  left : SectorResult α := {}
  leftCenter : SectorResult α := {}
  center : SectorResult α := {}
  rightCenter : SectorResult α := {}
  right : SectorResult α := {}
  totalPoints : UInt32 := 0
  angleFilteredPoints : UInt32 := 0
  distanceFilteredPoints : UInt32 := 0
  qualityFilteredPoints : UInt32 := 0
  timestamp : UInt64 := 0
  deriving DecidableEq, Repr

section Arithmetic
variable {α : Type} [IntCast α]

namespace DetectionResult

/-- Read through the array `sectors`, whose five pointers go from left to right. -/
def sector (r : DetectionResult α) : Fin 5 → SectorResult α
  | 0 => r.left
  | 1 => r.leftCenter
  | 2 => r.center
  | 3 => r.rightCenter
  | 4 => r.right

def setSector (r : DetectionResult α) (i : Fin 5) (v : SectorResult α) : DetectionResult α :=
  match i with
  | 0 => { r with left := v }
  | 1 => { r with leftCenter := v }
  | 2 => { r with center := v }
  | 3 => { r with rightCenter := v }
  | 4 => { r with right := v }

@[simp] theorem sector_setSector (r : DetectionResult α) (i : Fin 5) (v : SectorResult α) :
    (r.setSector i v).sector = Function.update r.sector i v := by
  funext j
  fin_cases i <;> fin_cases j <;> rfl

@[simp] theorem setSector_totalPoints (r : DetectionResult α) (i : Fin 5) (v : SectorResult α) :
    (r.setSector i v).totalPoints = r.totalPoints := by fin_cases i <;> rfl

@[simp] theorem setSector_angleFilteredPoints (r : DetectionResult α) (i : Fin 5)
    (v : SectorResult α) :
    (r.setSector i v).angleFilteredPoints = r.angleFilteredPoints := by fin_cases i <;> rfl

@[simp] theorem setSector_distanceFilteredPoints (r : DetectionResult α) (i : Fin 5)
    (v : SectorResult α) :
    (r.setSector i v).distanceFilteredPoints = r.distanceFilteredPoints := by
  fin_cases i <;> rfl

@[simp] theorem setSector_qualityFilteredPoints (r : DetectionResult α) (i : Fin 5)
    (v : SectorResult α) :
    (r.setSector i v).qualityFilteredPoints = r.qualityFilteredPoints := by
  fin_cases i <;> rfl

end DetectionResult

/-- The loop's local variables: the result under construction and the hit counters. -/
structure LoopState (α : Type) [IntCast α] where
  result : DetectionResult α
  sectorHits : Fin 5 → UInt32

namespace LoopState

def passAngle (s : LoopState α) : LoopState α :=
  { s with result.angleFilteredPoints := s.result.angleFilteredPoints + 1 }

def passDistance (s : LoopState α) : LoopState α :=
  { s with result.distanceFilteredPoints := s.result.distanceFilteredPoints + 1 }

def passQuality (s : LoopState α) : LoopState α :=
  { s with result.qualityFilteredPoints := s.result.qualityFilteredPoints + 1 }

end LoopState

variable [LT α] [LE α] [DecidableLT α] [DecidableLE α] [Sub α] [Div α] [ToInt α]

def normalizeAngle (angleDeg : α) : α :=
  if ((180 : ℤ) : α) < angleDeg then angleDeg - ((360 : ℤ) : α) else angleDeg

def fovSpan (config : PerceptionConfig α) : α := config.maxAngleDeg - config.minAngleDeg

def sectorWidth (config : PerceptionConfig α) : α := fovSpan config / ((5 : ℤ) : α)

/-- The quotient converted to the sector index. -/
def sectorQuotient (config : PerceptionConfig α) (normAngle : α) : α :=
  (normAngle - config.minAngleDeg) / sectorWidth config

/-- The range check on the converted index. -/
def clampSector (sectorIdx : ℤ) : Fin 5 :=
  if sectorIdx < 0 then 0
  else if h : 5 ≤ sectorIdx then 4
  else ⟨sectorIdx.toNat, by omega⟩

/-- Where the conversion is undefined the sector read here is the first one. -/
def sectorIndex (config : PerceptionConfig α) (normAngle : α) : Fin 5 :=
  clampSector ((ToInt.toInt (sectorQuotient config normAngle)).getD 0)

/-- What a hit does to its sector, `hits` being the sector's counter with it. -/
def trackNearest (config : PerceptionConfig α) (sector : SectorResult α) (hits : UInt32)
    (point : ScanPoint α) (normAngle : α) : SectorResult α :=
  let sector :=
    if point.distanceMm < sector.nearestDistanceMm ∨
        sector.nearestDistanceMm < ((0 : ℤ) : α) then
      { sector with nearestDistanceMm := point.distanceMm, nearestAngleDeg := normAngle }
    else sector
  if config.minHitsPerSector ≤ hits then { sector with obstacleDetected := true } else sector

/-- The end of the loop body, reached by a point that passed all filters. -/
def recordHit (config : PerceptionConfig α) (s : LoopState α) (point : ScanPoint α)
    (normAngle : α) : LoopState α :=
  let i := sectorIndex config normAngle
  let hits := s.sectorHits i + 1
  ⟨s.result.setSector i (trackNearest config (s.result.sector i) hits point normAngle),
    Function.update s.sectorHits i hits⟩

/-- One iteration of the loop; every early return is a `continue` of the source. -/
def processPoint (config : PerceptionConfig α) (s : LoopState α) (point : ScanPoint α) :
    LoopState α :=
  let normAngle := normalizeAngle point.angleDeg
  if point.distanceMm ≤ ((0 : ℤ) : α) then s
  else if normAngle < config.minAngleDeg ∨ config.maxAngleDeg < normAngle then s
  else if config.maxDistanceMm < point.distanceMm then s.passAngle
  else if point.quality < config.minimumQuality then s.passAngle.passDistance
  else recordHit config s.passAngle.passDistance.passQuality point normAngle

def initialLoop (frame : ScanFrame α) : LoopState α :=
  ⟨{ timestamp := frame.timestampUs, totalPoints := UInt32.ofNat frame.points.length },
    fun _ => 0⟩

def process (config : PerceptionConfig α) (frame : ScanFrame α) : DetectionResult α :=
  (frame.points.foldl (processPoint config) (initialLoop frame)).result

end Arithmetic

example : (process {} (⟨0, 7, [⟨350, 500, 20⟩, ⟨349, 400, 20⟩, ⟨348, 400, 20⟩]⟩ :
    ScanFrame ℚ)).leftCenter = ⟨true, 400, -11⟩ := by decide +kernel

end AebNode.Perception
