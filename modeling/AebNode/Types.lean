import AebNode.Binary32

/-! Domain value types shared by every layer. A point is generic in the scalar that
holds a binary32 value: the wire and the network layer see its 32-bit pattern, the
perception layer computes with the number it denotes. -/
namespace AebNode

structure ScanPoint (α : Type*) where
  angleDeg : α
  distanceMm : α
  quality : UInt8
  deriving DecidableEq, Repr

structure ScanFrame (α : Type*) where
  sequence : UInt32 := 0
  timestampUs : UInt64 := 0
  points : List (ScanPoint α) := []
  deriving DecidableEq, Repr

/-- Whether a binary32 value compares greater than zero. Of the patterns with a clear sign
bit, zero does not, nor do the NaNs, which lie past infinity. -/
def isPositive (bits : FloatBits) : Prop := 0 < bits ∧ bits ≤ 0x7F800000

instance (bits : FloatBits) : Decidable (isPositive bits) := instDecidableAnd

namespace ScanPoint

variable {α β : Type*}

def map (f : α → β) (p : ScanPoint α) : ScanPoint β :=
  ⟨f p.angleDeg, f p.distanceMm, p.quality⟩

end ScanPoint

namespace ScanFrame

variable {α β : Type*}

def map (f : α → β) (frame : ScanFrame α) : ScanFrame β :=
  ⟨frame.sequence, frame.timestampUs, frame.points.map (ScanPoint.map f)⟩

end ScanFrame

end AebNode
