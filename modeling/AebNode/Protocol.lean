import AebNode.LittleEndian
import AebNode.Types

/-! The wire format: the encoder and the stream decoder, byte by byte. A read outside the
buffer and a size that does not fit 32 bits both end a computation with `none`. -/
namespace AebNode.Protocol
open LittleEndian

def kMagic : ℕ := 0x42454131
def kVersion : ℕ := 1
def kHeaderSizeV1 : ℕ := 32
def kPointStrideV1 : ℕ := 10
def kFlagCrc32 : ℕ := 0x00000001
def kKnownFlagsMask : ℕ := kFlagCrc32
def kCrcTrailerSize : ℕ := 4
def kMaxPointsPerFrame : ℕ := 65536
def kMaxPointStride : ℕ := 256
def kMaxHeaderSize : ℕ := 1024

inductive DecodeStatus
  | ok
  | needMoreData
  | badMagic
  | badVersion
  | badHeader
  | tooLarge
  | crcMismatch
  deriving DecidableEq, Repr

abbrev Point := ScanPoint FloatBits
abbrev Frame := ScanFrame FloatBits

/-! The primitive writers append to a buffer; here they return what they append. -/

def putUint (n value : ℕ) : Bytes :=
  (List.range n).map fun i => UInt8.ofNat ((value >>> (8 * i)) &&& 0xFF)

def putFloat32 (bits : FloatBits) : Bytes := putUint 4 bits.toNat

/-- The shift loop of `getUint`, reading `n` octets from `offset` on. -/
def getUint (n : ℕ) (buffer : Bytes) (offset : ℕ) : Option ℕ :=
  (List.range n).foldlM (fun value i => do
    let octet ← buffer[offset + i]?
    return value ||| (octet.toNat <<< (8 * i))) 0

def getFloat32 (buffer : Bytes) (offset : ℕ) : Option FloatBits := do
  return UInt32.ofNat (← getUint 4 buffer offset)

def pointCount (frame : Frame) : ℕ :=
  if kMaxPointsPerFrame < frame.points.length then kMaxPointsPerFrame else frame.points.length

def encodePoint (p : Point) : Bytes :=
  putFloat32 p.angleDeg ++ putFloat32 p.distanceMm ++ putUint 1 p.quality.toNat ++ putUint 1 0

def encodeHeader (frame : Frame) : Bytes :=
  putUint 4 kMagic ++ putUint 2 kVersion ++ putUint 2 kHeaderSizeV1 ++ putUint 4 0 ++
    putUint 4 frame.sequence.toNat ++ putUint 8 frame.timestampUs.toNat ++
    putUint 4 (pointCount frame) ++ putUint 2 kPointStrideV1 ++ putUint 2 0

def encode (frame : Frame) : Bytes :=
  encodeHeader frame ++ (frame.points.take (pointCount frame)).flatMap encodePoint

def encodedSize (frame : Frame) : ℕ := kHeaderSizeV1 + pointCount frame * kPointStrideV1

/-- A size computation, checked against the largest 32-bit `size_t`. -/
def checkedSize (n : ℕ) : Option ℕ := if n ≤ 2 ^ 32 - 1 then some n else none

/-- The point loop: `count` records, `stride` bytes apart, the next one at `p`. -/
def readPoints (buffer : Bytes) (stride : ℕ) : ℕ → ℕ → Option (List Point)
  | 0, _ => some []
  | count + 1, p => do
    let angle ← getFloat32 buffer p
    let distance ← getFloat32 buffer (p + 4)
    let quality ← buffer[p + 8]?
    let rest ← readPoints buffer stride count (p + stride)
    return ⟨angle, distance, quality⟩ :: rest

/-- One decode attempt on the reassembly buffer and the caller's frame: the status, and what
the frame and the buffer hold afterwards. -/
def decode (buffer : Bytes) (out : Frame) : Option (DecodeStatus × Frame × Bytes) := do
  if buffer.length < kHeaderSizeV1 then return (.needMoreData, out, buffer)
  if (← getUint 4 buffer 0) ≠ kMagic then return (.badMagic, out, buffer)
  let version ← getUint 2 buffer 4
  if version ≠ kVersion then return (.badVersion, out, buffer)
  let headerSize ← getUint 2 buffer 6
  let flags ← getUint 4 buffer 8
  let sequence ← getUint 4 buffer 12
  let timestampUs ← getUint 8 buffer 16
  let pointCount ← getUint 4 buffer 24
  let pointStride ← getUint 2 buffer 28
  if headerSize < kHeaderSizeV1 ∨ kMaxHeaderSize < headerSize ∨
      pointStride < kPointStrideV1 ∨ kMaxPointStride < pointStride then
    return (.badHeader, out, buffer)
  if flags &&& (2 ^ 32 - 1 - kKnownFlagsMask) ≠ 0 then return (.badHeader, out, buffer)
  if kMaxPointsPerFrame < pointCount then return (.tooLarge, out, buffer)
  let payloadSize ← checkedSize (pointCount * pointStride)
  let trailerSize := if flags &&& kFlagCrc32 ≠ 0 then kCrcTrailerSize else 0
  let packetSize ← checkedSize ((← checkedSize (headerSize + payloadSize)) + trailerSize)
  if buffer.length < packetSize then return (.needMoreData, out, buffer)
  let points ← readPoints buffer pointStride pointCount headerSize
  return (.ok, ⟨UInt32.ofNat sequence, UInt64.ofNat timestampUs, points⟩,
    buffer.drop packetSize)

def feed (buffer data : Bytes) : Bytes := if data.length = 0 then buffer else buffer ++ data

/-- Drop bytes up to the next magic past the first byte. The scan runs over the offsets
1 to `buffer.length - 4`. -/
def resynchronise (buffer : Bytes) : Option (Bool × Bytes) := do
  if buffer.length < 4 then return (false, [])
  let found ← (List.range' 1 (buffer.length - 4)).findM? fun i => do
    return (← getUint 4 buffer i) == kMagic
  match found with
  | some i => return (true, buffer.drop i)
  | none => return (false, buffer.drop (buffer.length - 3))

example : decode (encode ⟨7, 9, [⟨1, 2, 3⟩]⟩ ++ [5]) {} = some (.ok, ⟨7, 9, [⟨1, 2, 3⟩]⟩, [5]) := by
  decide +kernel

/-! The primitives in terms of little-endian numbers. -/

theorem putUint_eq (n value : ℕ) : putUint n value = bytes n value := by
  induction n generalizing value with
  | zero => rfl
  | succ n ih =>
    have hshift : ∀ i, value >>> (8 * (i + 1)) = (value / 256) >>> (8 * i) := by
      intro i
      rw [Nat.mul_succ, Nat.add_comm, Nat.shiftRight_add, Nat.shiftRight_eq_div_pow value]
    have hlow : UInt8.ofNat (value &&& 0xFF) = UInt8.ofNat value := by
      apply UInt8.toNat_inj.mp
      rw [UInt8.toNat_ofNat', UInt8.toNat_ofNat', Nat.and_two_pow_sub_one_eq_mod value 8]
      omega
    unfold putUint at ih ⊢
    rw [List.range_succ_eq_map, List.map_cons, List.map_map, bytes, ← ih]
    simp only [Nat.mul_zero, Nat.shiftRight_zero, hlow, Function.comp_def, Nat.succ_eq_add_one,
      hshift]

/-- The first `n` rounds of the shift loop read the first `n` bytes. -/
theorem getUint_eq {n : ℕ} {buffer : Bytes} {offset : ℕ} (h : offset + n ≤ buffer.length) :
    getUint n buffer offset = some (field buffer offset n) := by
  induction n with
  | zero => simp [getUint, field, value]
  | succ n ih =>
    have hget : buffer[offset + n]? = some buffer[offset + n] := List.getElem?_eq_getElem (by omega)
    have hlen : ((buffer.drop offset).take n).length = n := by simp; omega
    have hnext : field buffer offset (n + 1) =
        field buffer offset n + 2 ^ (8 * n) * buffer[offset + n].toNat := by
      rw [field, List.take_add_one, List.getElem?_drop, hget, Option.toList_some,
        value_append_singleton, hlen, show 256 = 2 ^ 8 by norm_num, ← pow_mul]
      rfl
    have hlt : field buffer offset n < 2 ^ (8 * n) := by
      rw [pow_mul]
      exact field_lt buffer offset n
    have hor : field buffer offset n ||| buffer[offset + n].toNat <<< (8 * n) =
        field buffer offset (n + 1) := by
      rw [Nat.or_comm, ← Nat.shiftLeft_add_eq_or_of_lt hlt, hnext, Nat.shiftLeft_eq]
      ring
    have hi := ih (by omega)
    unfold getUint at hi ⊢
    rw [List.range_succ, List.foldlM_append, hi]
    simp [hget, hor]

end AebNode.Protocol
