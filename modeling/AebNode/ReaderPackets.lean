import AebNode.ProtocolRecovery

/-! What the two Python readers of the stream take for a packet. `lidar_viewer.py` and
`angle_monitor.py` each carry a copy of the protocol constants and of the point loop. -/
namespace AebNode.Reader
open LittleEndian Protocol

def magic : ℕ := 0x42454131
def version : ℕ := 1
def headerSize : ℕ := 32
def pointStride : ℕ := 10
def flagCrc32 : ℕ := 0x00000001
def maxPoints : ℕ := 65536

/-- One little-endian field of `struct.unpack_from`; a field that is not inside the buffer
raises `struct.error`. -/
def unpackFrom (n : ℕ) (buffer : Bytes) (offset : ℕ) : Option ℕ :=
  if offset + n ≤ buffer.length then some (field buffer offset n) else none

/-- The filter of both readers. -/
def Visible (p : Point) : Prop := isPositive p.distanceMm ∧ 0 < p.quality

instance (p : Point) : Decidable (Visible p) := instDecidableAnd

/-- The point loop of both readers: `emit` makes the tuple that is appended. -/
def unpackPoints {α : Type} (emit : Point → α) (buffer : Bytes) (stride : ℕ) :
    ℕ → ℕ → Option (List α)
  | 0, _ => some []
  | count + 1, offset => do
    let angleDeg ← unpackFrom 4 buffer offset
    let distMm ← unpackFrom 4 buffer (offset + 4)
    let quality ← buffer[offset + 8]?
    let point : Point := ⟨UInt32.ofNat angleDeg, UInt32.ofNat distMm, quality⟩
    let points ← unpackPoints emit buffer stride count (offset + stride)
    return if Visible point then emit point :: points else points

/-- The scan over `range(1, max(1, len(buf) - 3))` for the next magic candidate. -/
def nextCandidate (buffer : Bytes) : Option (Option ℕ) :=
  (List.range' 1 (max 1 (buffer.length - 3) - 1)).findM? fun i => do
    return (← unpackFrom 4 buffer i) == magic

/-- A header that neither reader rejects. There is no upper limit on `header_size` and
`point_stride` and no check of the flags. -/
structure LooseHeader (buffer : Bytes) : Prop where
  complete : 32 ≤ buffer.length
  magic : field buffer 0 4 = kMagic
  version : field buffer 4 2 = kVersion
  headerSize_ge : 32 ≤ headerSizeOf buffer
  pointStride_ge : 10 ≤ pointStrideOf buffer
  pointCount_le : pointCountOf buffer ≤ 65536

/-- The buffer starts with a packet that the readers turn into a frame. -/
def Accepts (buffer : Bytes) : Prop := LooseHeader buffer ∧ packetSize buffer ≤ buffer.length

def visiblePoints (frame : Frame) : List Point := frame.points.filter fun p => Visible p

theorem looseHeader_of_valid {buffer : Bytes} (h : ValidHeader buffer) : LooseHeader buffer :=
  ⟨h.complete, h.magic, h.version, h.headerSize_ge, h.pointStride_ge, h.pointCount_le⟩

theorem unpackFrom_eq {n offset : ℕ} {buffer : Bytes} (h : offset + n ≤ buffer.length) :
    unpackFrom n buffer offset = some (field buffer offset n) := if_pos h

theorem looseHeader_iff (buffer : Bytes) : LooseHeader buffer ↔ 32 ≤ buffer.length ∧
    field buffer 0 4 = kMagic ∧ field buffer 4 2 = kVersion ∧ 32 ≤ headerSizeOf buffer ∧
      10 ≤ pointStrideOf buffer ∧ pointCountOf buffer ≤ 65536 :=
  ⟨fun ⟨h1, h2, h3, h4, h5, h6⟩ => ⟨h1, h2, h3, h4, h5, h6⟩,
    fun ⟨h1, h2, h3, h4, h5, h6⟩ => ⟨h1, h2, h3, h4, h5, h6⟩⟩

instance (buffer : Bytes) : Decidable (LooseHeader buffer) :=
  decidable_of_iff _ (looseHeader_iff buffer).symm

instance (buffer : Bytes) : Decidable (Accepts buffer) := instDecidableAnd

theorem looseHeader_checks {buffer : Bytes} (h : 32 ≤ buffer.length) : LooseHeader buffer ↔
    field buffer 0 4 = Reader.magic ∧
      ¬ (field buffer 4 2 ≠ Reader.version ∨ headerSizeOf buffer < headerSize) ∧
      ¬ (maxPoints < pointCountOf buffer ∨ pointStrideOf buffer < pointStride) := by
  simp only [not_or, not_lt, not_not]
  constructor
  · intro hl
    exact ⟨hl.magic, ⟨hl.version, hl.headerSize_ge⟩, hl.pointCount_le, hl.pointStride_ge⟩
  · rintro ⟨hmagic, ⟨hversion, hsize⟩, hcount, hstride⟩
    exact ⟨h, hmagic, hversion, hsize, hstride, hcount⟩

theorem packetSize_eq (buffer : Bytes) :
    headerSizeOf buffer + pointCountOf buffer * pointStrideOf buffer +
      (if flagsOf buffer &&& flagCrc32 ≠ 0 then 4 else 0) = packetSize buffer := by
  simp only [packetSize, ← crc_flag_iff]
  rfl

/-- The point loop stays inside a complete packet and shows the visible records. -/
theorem unpackPoints_eq {α : Type} (emit : Point → α) {buffer : Bytes} {stride count p : ℕ}
    (hs : 10 ≤ stride) (h : p + count * stride ≤ buffer.length) :
    unpackPoints emit buffer stride count p =
      some ((((List.range count).map fun i => recordAt buffer (p + i * stride)).filter
        fun q => Visible q).map emit) := by
  induction count generalizing p with
  | zero => rfl
  | succ count ih =>
    rw [Nat.succ_mul] at h
    have hrest := ih (p := p + stride) (by omega)
    have hshift : ∀ i, p + stride + i * stride = p + (i + 1) * stride := by
      intro i
      ring
    rw [unpackPoints, unpackFrom_eq (by omega), unpackFrom_eq (by omega),
      getElem?_eq_field (by omega), hrest, List.range_succ_eq_map, List.map_cons, List.map_map]
    simp only [Option.bind_eq_bind, Option.bind_some, Option.pure_def, Nat.zero_mul, Nat.add_zero,
      hshift, Function.comp_def, Nat.succ_eq_add_one]
    have hrecord : recordAt buffer p = ⟨UInt32.ofNat (field buffer p 4),
      UInt32.ofNat (field buffer (p + 4) 4), UInt8.ofNat (field buffer (p + 8) 1)⟩ := rfl
    rw [← hrecord]
    by_cases hv : Visible (recordAt buffer p)
    · rw [if_pos hv, List.filter_cons_of_pos (by simpa using hv), List.map_cons]
    · rw [if_neg hv, List.filter_cons_of_neg (by simpa using hv)]

theorem unpackPoints_packet {α : Type} (emit : Point → α) {buffer : Bytes}
    (h : Accepts buffer) :
    unpackPoints emit buffer (pointStrideOf buffer) (pointCountOf buffer) (headerSizeOf buffer) =
      some ((visiblePoints (frameOf buffer)).map emit) := by
  have hfits : headerSizeOf buffer + pointCountOf buffer * pointStrideOf buffer ≤
      buffer.length := (Nat.le_add_right _ _).trans h.2
  exact unpackPoints_eq emit h.1.pointStride_ge hfits

theorem nextCandidate_eq (buffer : Bytes) : nextCandidate buffer = some (nextMagic buffer) := by
  have hcount : max 1 (buffer.length - 3) - 1 = buffer.length - 4 := by omega
  have hread : ∀ i ∈ List.range' 1 (buffer.length - 4),
      unpackFrom 4 buffer i = some (field buffer i 4) := by
    intro i hi
    obtain ⟨hge, hlt⟩ := List.mem_range'_1.mp hi
    exact unpackFrom_eq (by omega)
  unfold nextCandidate
  rw [hcount]
  exact findM?_magic hread

theorem packetSize_ge_header {buffer : Bytes} (h : LooseHeader buffer) :
    32 ≤ packetSize buffer := by
  have hsize := h.headerSize_ge
  unfold packetSize
  omega

end AebNode.Reader
