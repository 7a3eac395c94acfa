import AebNode.PerceptionSectors

/-! The fan-out point of the node: the callback the acquisition thread runs for every
delivered frame, from the frame to the brake command on the CAN bus. -/
namespace AebNode.Application
open Perception

structure CanMessage where
  id : UInt32 := 0
  dlc : UInt8 := 0
  data : Vector UInt8 8 := Vector.replicate 8 0
  deriving DecidableEq, Repr

def kBrakeCanId : UInt32 := 0x080
def kBrakeDisengage : UInt8 := 0x01
def kBrakeEngage : UInt8 := 0x02

/-- The one exception `TcpServer::publish` can raise. -/
inductive Exception
  | badAlloc
  deriving DecidableEq, Repr

def brakeMessage (obstacle : Bool) : CanMessage :=
  { id := kBrakeCanId
    dlc := 1
    data := (Vector.replicate 8 0).set 0 (if obstacle then kBrakeEngage else kBrakeDisengage) }

section Arithmetic
variable {α : Type} [IntCast α]

def obstacle (result : DetectionResult α) : Bool :=
  result.left.obstacleDetected || result.leftCenter.obstacleDetected ||
    result.center.obstacleDetected || result.rightCenter.obstacleDetected ||
    result.right.obstacleDetected

theorem obstacle_iff (result : DetectionResult α) :
    obstacle result = true ↔ ∃ i, (result.sector i).obstacleDetected = true := by
  simp [obstacle, DetectionResult.sector, Fin.exists_fin_succ, or_assoc]

variable [LT α] [LE α] [DecidableLT α] [DecidableLE α] [Sub α] [Div α] [ToInt α]

/-- The callback of `startLidar`. `publish` is what `tcp->publish(frame)`, its first
statement, did; the result is the list of messages handed to `CanBus::send`. -/
def lidarCallback (noCan : Bool) (perception : PerceptionConfig α)
    (publish : Except Exception Unit) (frame : ScanFrame α) :
    Except Exception (List CanMessage) := do
  publish
  let result := process perception frame
  if noCan then return []
  else return [brakeMessage (obstacle result)]

theorem lidarCallback_ok (noCan : Bool) (perception : PerceptionConfig α) (frame : ScanFrame α) :
    lidarCallback noCan perception (.ok ()) frame =
      .ok (if noCan then [] else [brakeMessage (obstacle (process perception frame))]) := by
  cases noCan <;> rfl

theorem lidarCallback_error (noCan : Bool) (perception : PerceptionConfig α) (e : Exception)
    (frame : ScanFrame α) : lidarCallback noCan perception (.error e) frame = .error e := rfl

end Arithmetic

/-- The brake decision of one frame: flags, nearest hits and counters of `process`, and the
single message the callback sends for it. -/
theorem brake_decision {config : PerceptionConfig ℚ} {frame : ScanFrame ℚ}
    (hfov : config.minAngleDeg < config.maxAngleDeg) (hlen : frame.points.length < 2 ^ 32) :
    (∀ i : Fin 5,
      let hits := sectorPoints config frame.points i
      let sector := (process config frame).sector i
      (sector.obstacleDetected = true ↔ max 1 config.minHitsPerSector.toNat ≤ hits.length) ∧
        sector.nearestDistanceMm = nearestDistance hits ∧
        sector.nearestAngleDeg = nearestAngle hits) ∧
    (process config frame).angleFilteredPoints.toNat =
      (frame.points.filter fun p => InField config p).length ∧
    (process config frame).distanceFilteredPoints.toNat =
      (frame.points.filter fun p => InRange config p).length ∧
    (process config frame).qualityFilteredPoints.toNat =
      (frame.points.filter fun p => Accepted config p).length ∧
    ∃ m, lidarCallback false config (.ok ()) frame = .ok [m] ∧ m.id = 0x080 ∧ m.dlc = 1 ∧
      m.data[0] = if ∃ i, max 1 config.minHitsPerSector.toNat ≤
        (sectorPoints config frame.points i).length then 0x02 else 0x01 := by
  have inv := loop_invariant frame hfov frame.points
  have hsize : ∀ (P : ScanPoint ℚ → Prop) [DecidablePred P],
      (UInt32.ofNat (frame.points.countP P)).toNat = (frame.points.filter fun p => P p).length := by
    intro P _
    have hle : frame.points.countP P ≤ frame.points.length := List.countP_le_length
    rw [UInt32.toNat_ofNat', Nat.mod_eq_of_lt (hle.trans_lt hlen), List.countP_eq_length_filter]
  refine ⟨fun i => ⟨inv.detected i, inv.nearest i, inv.bearing i⟩, ?_, ?_, ?_, ?_⟩
  · exact (congrArg UInt32.toNat inv.angle).trans (hsize (InField config))
  · exact (congrArg UInt32.toNat inv.distance).trans (hsize (InRange config))
  · exact (congrArg UInt32.toNat inv.quality).trans (hsize (Accepted config))
  · refine ⟨_, lidarCallback_ok false config frame, rfl, rfl, ?_⟩
    have hiff : obstacle (process config frame) = true ↔
        ∃ i, max 1 config.minHitsPerSector.toNat ≤ (sectorPoints config frame.points i).length :=
      (obstacle_iff _).trans (exists_congr inv.detected)
    simp only [brakeMessage, kBrakeEngage, kBrakeDisengage, Vector.getElem_set_self, hiff]

def leftReturns : ScanFrame ℚ := ⟨0, 7, [⟨350, 500, 20⟩, ⟨349, 400, 20⟩, ⟨348, 400, 20⟩]⟩

/-- They make the node brake. -/
theorem brake_decision_braking :
    ∃ m, lidarCallback false {} (.ok ()) leftReturns = .ok [m] ∧
      m.id = 0x080 ∧ m.dlc = 1 ∧ m.data[0] = 0x02 := by
  have h := (@brake_decision {} leftReturns (by decide +kernel) (by decide)).2.2.2.2
  rwa [if_pos ⟨1, by decide +kernel⟩] at h

end AebNode.Application
