import AebNode.Protocol

/-! The documented wire grammar, and that the decoder accepts exactly it. A header is read off
the first 32 bytes; the packet it announces may carry header, stride and trailer bytes that
this version does not know. -/
namespace AebNode.Protocol
open LittleEndian

def headerSizeOf (buffer : Bytes) : ℕ := field buffer 6 2
def flagsOf (buffer : Bytes) : ℕ := field buffer 8 4
def pointCountOf (buffer : Bytes) : ℕ := field buffer 24 4
def pointStrideOf (buffer : Bytes) : ℕ := field buffer 28 2

/-- The buffer starts with a header this version may read. -/
structure ValidHeader (buffer : Bytes) : Prop where
  complete : 32 ≤ buffer.length
  magic : field buffer 0 4 = kMagic
  version : field buffer 4 2 = kVersion
  headerSize_ge : 32 ≤ headerSizeOf buffer
  headerSize_le : headerSizeOf buffer ≤ 1024
  pointStride_ge : 10 ≤ pointStrideOf buffer
  pointStride_le : pointStrideOf buffer ≤ 256
  flags : ∀ i, (flagsOf buffer).testBit i = true → i = 0
  pointCount_le : pointCountOf buffer ≤ 65536

def packetSize (buffer : Bytes) : ℕ :=
  headerSizeOf buffer + pointCountOf buffer * pointStrideOf buffer +
    if (flagsOf buffer).testBit 0 then 4 else 0

/-- The point record in the nine bytes from `p` on. -/
def recordAt (buffer : Bytes) (p : ℕ) : Point :=
  ⟨UInt32.ofNat (field buffer p 4), UInt32.ofNat (field buffer (p + 4) 4),
    UInt8.ofNat (field buffer (p + 8) 1)⟩

/-- The `i`-th point: the first nine bytes of its stride. -/
def pointAt (buffer : Bytes) (i : ℕ) : Point :=
  recordAt buffer (headerSizeOf buffer + i * pointStrideOf buffer)

def frameOf (buffer : Bytes) : Frame :=
  ⟨UInt32.ofNat (field buffer 12 4), UInt64.ofNat (field buffer 16 8),
    (List.range (pointCountOf buffer)).map (pointAt buffer)⟩

/-- The first header check that fails, in the order the decoder makes them. -/
def headerFault (buffer : Bytes) : Option DecodeStatus :=
  if field buffer 0 4 ≠ kMagic then some .badMagic
  else if field buffer 4 2 ≠ kVersion then some .badVersion
  else if headerSizeOf buffer < kHeaderSizeV1 ∨ kMaxHeaderSize < headerSizeOf buffer ∨
      pointStrideOf buffer < kPointStrideV1 ∨ kMaxPointStride < pointStrideOf buffer then
    some .badHeader
  else if flagsOf buffer &&& (2 ^ 32 - 1 - kKnownFlagsMask) ≠ 0 then some .badHeader
  else if kMaxPointsPerFrame < pointCountOf buffer then some .tooLarge
  else none

/-- A 32-bit word has no bit under the complement of the CRC flag exactly when no bit but the
lowest is set. -/
theorem unknown_flags_zero_iff {flags : ℕ} (h : flags < 2 ^ 32) :
    flags &&& (2 ^ 32 - 1 - kKnownFlagsMask) = 0 ↔ ∀ i, flags.testBit i = true → i = 0 := by
  have hmask : ∀ i, (2 ^ 32 - 1 - kKnownFlagsMask : ℕ).testBit (i + 1) = decide (i < 31) := by
    intro i
    rw [Nat.testBit_succ, show (2 ^ 32 - 1 - kKnownFlagsMask : ℕ) / 2 = 2 ^ 31 - 1 from rfl,
      Nat.testBit_two_pow_sub_one]
  constructor
  · intro hz i hi
    cases i with
    | zero => rfl
    | succ i =>
      have hbit := congrArg (fun x => Nat.testBit x (i + 1)) hz
      simp only [Nat.testBit_and, hi, hmask, Bool.true_and, Nat.zero_testBit,
        decide_eq_false_iff_not, not_lt] at hbit
      have hlow := Nat.testBit_lt_two_pow (x := flags) (i := i + 1)
        (h.trans_le (Nat.pow_le_pow_right (by norm_num) (by omega)))
      simp [hlow] at hi
  · intro hz
    apply Nat.eq_of_testBit_eq
    intro i
    rw [Nat.testBit_and, Nat.zero_testBit]
    cases i with
    | zero =>
      have hbit : (2 ^ 32 - 1 - kKnownFlagsMask : ℕ).testBit 0 = false := rfl
      rw [hbit, Bool.and_false]
    | succ i =>
      cases hi : flags.testBit (i + 1) with
      | false => rfl
      | true => exact absurd (hz _ hi) (Nat.succ_ne_zero i)

theorem crc_flag_iff (flags : ℕ) : flags &&& kFlagCrc32 ≠ 0 ↔ flags.testBit 0 = true := by
  rw [kFlagCrc32, Nat.and_one_is_mod, Nat.testBit_zero, decide_eq_true_eq]
  omega

/-- A complete header passes every check exactly when it is valid. -/
theorem headerFault_eq_none_iff {buffer : Bytes} (h : 32 ≤ buffer.length) :
    headerFault buffer = none ↔ ValidHeader buffer := by
  have hflags := unknown_flags_zero_iff (field_lt buffer 8 4)
  unfold headerFault
  constructor
  · intro hn
    split_ifs at hn with h1 h2 h3 h4 h5
    simp only [not_or, not_lt, not_not] at h1 h2 h3 h4 h5
    exact ⟨h, h1, h2, h3.1, h3.2.1, h3.2.2.1, h3.2.2.2, hflags.mp h4, h5⟩
  · intro hv
    rw [if_neg (not_not.mpr hv.magic), if_neg (not_not.mpr hv.version), if_neg, if_neg, if_neg]
    · exact not_lt.mpr hv.pointCount_le
    · exact not_not.mpr (hflags.mpr hv.flags)
    · simp only [not_or, not_lt]
      exact ⟨hv.headerSize_ge, hv.headerSize_le, hv.pointStride_ge, hv.pointStride_le⟩

theorem headerFault_ne {buffer : Bytes} {status : DecodeStatus}
    (h : headerFault buffer = some status) : status ≠ .ok ∧ status ≠ .needMoreData := by
  unfold headerFault at h
  split_ifs at h <;> obtain rfl := Option.some.inj h <;> decide

theorem packetSize_lt {buffer : Bytes} (h : ValidHeader buffer) :
    packetSize buffer ≤ 1024 + 65536 * 256 + 4 := by
  have hmul := Nat.mul_le_mul h.pointCount_le h.pointStride_le
  have hsize := h.headerSize_le
  unfold packetSize
  split_ifs <;> omega

theorem packetSize_ge {buffer : Bytes} (h : ValidHeader buffer) : 32 ≤ packetSize buffer := by
  have hsize := h.headerSize_ge
  unfold packetSize
  omega

theorem checkedSize_eq {n : ℕ} (h : n ≤ 2 ^ 32 - 1) : checkedSize n = some n := if_pos h

theorem getFloat32_eq {buffer : Bytes} {offset : ℕ} (h : offset + 4 ≤ buffer.length) :
    getFloat32 buffer offset = some (UInt32.ofNat (field buffer offset 4)) := by
  simp [getFloat32, getUint_eq h]

theorem getElem?_eq_field {buffer : Bytes} {offset : ℕ} (h : offset < buffer.length) :
    buffer[offset]? = some (UInt8.ofNat (field buffer offset 1)) := by
  have hdrop : (buffer.drop offset).take 1 = [buffer[offset]] := by
    rw [List.take_one, List.head?_drop, List.getElem?_eq_getElem h, Option.toList_some]
  rw [List.getElem?_eq_getElem h, field, hdrop]
  simp [value]

theorem readPoints_eq {buffer : Bytes} {stride count p : ℕ} (hs : 10 ≤ stride)
    (h : p + count * stride ≤ buffer.length) :
    readPoints buffer stride count p =
      some ((List.range count).map fun i => recordAt buffer (p + i * stride)) := by
  induction count generalizing p with
  | zero => rfl
  | succ count ih =>
    rw [Nat.succ_mul] at h
    have hrest := ih (p := p + stride) (by omega)
    rw [readPoints, getFloat32_eq (by omega), getFloat32_eq (by omega),
      getElem?_eq_field (by omega), hrest, List.range_succ_eq_map, List.map_cons, List.map_map]
    simp only [Option.bind_eq_bind, Option.bind_some, Option.pure_def, Nat.zero_mul, Nat.add_zero,
      Function.comp_def, Nat.succ_eq_add_one, Nat.succ_mul, Nat.add_assoc, Nat.add_comm stride]
    rfl

/-- The decoder, with every read and size computation discharged. -/
theorem decode_eq (buffer : Bytes) (out : Frame) :
    decode buffer out = some (
      if buffer.length < 32 then (.needMoreData, out, buffer)
      else match headerFault buffer with
        | some status => (status, out, buffer)
        | none =>
          if buffer.length < packetSize buffer then (.needMoreData, out, buffer)
          else (.ok, frameOf buffer, buffer.drop (packetSize buffer))) := by
  by_cases hlen : buffer.length < 32
  · simp [decode, kHeaderSizeV1, hlen]
  have hmagic : getUint 4 buffer 0 = some (field buffer 0 4) := getUint_eq (by omega)
  have hversion : getUint 2 buffer 4 = some (field buffer 4 2) := getUint_eq (by omega)
  have hsize : getUint 2 buffer 6 = some (headerSizeOf buffer) := getUint_eq (by omega)
  have hflags : getUint 4 buffer 8 = some (flagsOf buffer) := getUint_eq (by omega)
  have hsequence : getUint 4 buffer 12 = some (field buffer 12 4) := getUint_eq (by omega)
  have htimestamp : getUint 8 buffer 16 = some (field buffer 16 8) := getUint_eq (by omega)
  have hcount : getUint 4 buffer 24 = some (pointCountOf buffer) := getUint_eq (by omega)
  have hstride : getUint 2 buffer 28 = some (pointStrideOf buffer) := getUint_eq (by omega)
  have hheader : ¬ buffer.length < kHeaderSizeV1 := hlen
  unfold decode
  simp only [hheader, hmagic, hversion, hsize, hflags, hsequence, htimestamp, hcount, hstride,
    Option.bind_eq_bind, Option.bind_some, Option.pure_def, if_neg hlen, ↓reduceIte]
  cases hf : headerFault buffer with
  | some status =>
    unfold headerFault at hf
    split_ifs at hf with h1 h2 h3 h4 h5 <;> obtain rfl := Option.some.inj hf
    · rw [if_pos h1]
    · rw [if_neg h1, if_pos h2]
    · rw [if_neg h1, if_neg h2, if_pos h3]
    · rw [if_neg h1, if_neg h2, if_neg h3, if_pos h4]
    · rw [if_neg h1, if_neg h2, if_neg h3, if_neg h4, if_pos h5]
  | none =>
    have hv := (headerFault_eq_none_iff (by omega)).mp hf
    unfold headerFault at hf
    split_ifs at hf with h1 h2 h3 h4 h5
    have hbound := packetSize_lt hv
    have htrailer : (if flagsOf buffer &&& kFlagCrc32 ≠ 0 then kCrcTrailerSize else 0) =
        if (flagsOf buffer).testBit 0 then 4 else 0 := by
      simp only [crc_flag_iff, kCrcTrailerSize]
    have hpacket : headerSizeOf buffer + pointCountOf buffer * pointStrideOf buffer +
        (if flagsOf buffer &&& kFlagCrc32 ≠ 0 then kCrcTrailerSize else 0) =
        packetSize buffer := by
      rw [htrailer, packetSize]
    rw [if_neg h1, if_neg h2, if_neg h3, if_neg h4, if_neg h5, checkedSize_eq (by omega),
      Option.bind_some, checkedSize_eq (by omega), Option.bind_some, hpacket,
      checkedSize_eq (by omega), Option.bind_some]
    dsimp only
    split_ifs with hshort
    · rfl
    · have hfits : headerSizeOf buffer + pointCountOf buffer * pointStrideOf buffer ≤
          buffer.length := by omega
      rw [readPoints_eq hv.pointStride_ge hfits]
      rfl

/-- The bytes a version 1 reader looks at: the fixed header and the first nine bytes of every
stride. The header extension, the stride extensions and the trailer are not among them. -/
def KnownByte (buffer : Bytes) (k : ℕ) : Prop :=
  k < 32 ∨ ∃ i < pointCountOf buffer, ∃ j < 9,
    k = headerSizeOf buffer + i * pointStrideOf buffer + j

theorem field_congr {buffer other : Bytes} {offset n : ℕ}
    (h : ∀ j < n, other[offset + j]? = buffer[offset + j]?) :
    field other offset n = field buffer offset n := by
  unfold field
  congr 1
  apply List.ext_getElem?
  intro j
  simp only [List.getElem?_take, List.getElem?_drop]
  split_ifs with hj
  · exact h j hj
  · rfl

/-- Two buffers that agree on the known bytes announce the same packet and carry the same
frame. -/
theorem known_bytes_determine {buffer other : Bytes} (hv : ValidHeader buffer)
    (hfits : 32 ≤ other.length) (h : ∀ k, KnownByte buffer k → other[k]? = buffer[k]?) :
    ValidHeader other ∧ packetSize other = packetSize buffer ∧ frameOf other = frameOf buffer := by
  have hhead : ∀ {offset n : ℕ}, offset + n ≤ 32 → field other offset n = field buffer offset n :=
    fun ho => field_congr fun j hj => h _ (Or.inl (by omega))
  have hsize : headerSizeOf other = headerSizeOf buffer := hhead (by norm_num)
  have hflags : flagsOf other = flagsOf buffer := hhead (by norm_num)
  have hcount : pointCountOf other = pointCountOf buffer := hhead (by norm_num)
  have hstride : pointStrideOf other = pointStrideOf buffer := hhead (by norm_num)
  refine ⟨⟨hfits, ?_, ?_, ?_, ?_, ?_, ?_, ?_, ?_⟩, ?_, ?_⟩
  · rw [hhead (by norm_num)]; exact hv.magic
  · rw [hhead (by norm_num)]; exact hv.version
  · rw [hsize]; exact hv.headerSize_ge
  · rw [hsize]; exact hv.headerSize_le
  · rw [hstride]; exact hv.pointStride_ge
  · rw [hstride]; exact hv.pointStride_le
  · rw [hflags]; exact hv.flags
  · rw [hcount]; exact hv.pointCount_le
  · rw [packetSize, packetSize, hsize, hflags, hcount, hstride]
  · have hpoints : ∀ i ∈ List.range (pointCountOf buffer), pointAt other i = pointAt buffer i := by
      intro i hi
      have hrecord : ∀ {offset n : ℕ}, offset + n ≤ 9 →
          field other (headerSizeOf buffer + i * pointStrideOf buffer + offset) n =
            field buffer (headerSizeOf buffer + i * pointStrideOf buffer + offset) n :=
        fun ho => field_congr fun j hj =>
          h _ (Or.inr ⟨i, List.mem_range.mp hi, _, by omega, Nat.add_assoc _ _ _⟩)
      have hangle := @hrecord 0 4 (by norm_num)
      rw [Nat.add_zero] at hangle
      rw [pointAt, pointAt, hsize, hstride, recordAt, recordAt, hangle, hrecord (by norm_num),
        hrecord (by norm_num)]
    rw [frameOf, frameOf, hhead (by norm_num), hhead (by norm_num), hcount,
      List.map_congr_left hpoints]

theorem decode_short {buffer : Bytes} (h : buffer.length < 32) (out : Frame) :
    decode buffer out = some (.needMoreData, out, buffer) := by
  rw [decode_eq, if_pos h]

theorem decode_fault {buffer : Bytes} {status : DecodeStatus} (h : 32 ≤ buffer.length)
    (hf : headerFault buffer = some status) (out : Frame) :
    decode buffer out = some (status, out, buffer) := by
  rw [decode_eq, if_neg (by omega), hf]

theorem decode_incomplete {buffer : Bytes} (hv : ValidHeader buffer)
    (h : buffer.length < packetSize buffer) (out : Frame) :
    decode buffer out = some (.needMoreData, out, buffer) := by
  rw [decode_eq, if_neg (by have := hv.complete; omega),
    (headerFault_eq_none_iff hv.complete).mpr hv]
  simp [h]

theorem decode_packet {buffer : Bytes} (hv : ValidHeader buffer)
    (h : packetSize buffer ≤ buffer.length) (out : Frame) :
    decode buffer out = some (.ok, frameOf buffer, buffer.drop (packetSize buffer)) := by
  rw [decode_eq, if_neg (by have := hv.complete; omega),
    (headerFault_eq_none_iff hv.complete).mpr hv]
  simp [Nat.not_lt.mpr h]

/-- The decoder accepts exactly the wire grammar, whatever the buffer holds: it always returns
(every read is inside the buffer, every size fits 32 bits), `ok` means a valid header and a
complete packet, of which only the known bytes matter, and any other status changes nothing. -/
theorem decode_accepts_grammar (buffer : Bytes) (out : Frame) :
    ∃ status frame rest, decode buffer out = some (status, frame, rest) ∧
      (status = .ok ↔ ValidHeader buffer ∧ packetSize buffer ≤ buffer.length) ∧
      (status = .ok → frame = frameOf buffer ∧ frame.points.length = pointCountOf buffer ∧
        rest = buffer.drop (packetSize buffer) ∧
        ∀ other : Bytes, packetSize buffer ≤ other.length →
          (∀ k, KnownByte buffer k → other[k]? = buffer[k]?) →
          decode other out = some (.ok, frame, other.drop (packetSize buffer))) ∧
      (status ≠ .ok → frame = out ∧ rest = buffer) ∧
      (status = .needMoreData ↔ buffer.length < 32 ∨
        ValidHeader buffer ∧ buffer.length < packetSize buffer) := by
  by_cases hlen : buffer.length < 32
  · refine ⟨_, _, _, decode_short hlen out, ?_, nofun, fun _ => ⟨rfl, rfl⟩, ?_⟩
    · exact ⟨nofun, fun h => absurd h.1.complete (by omega)⟩
    · exact ⟨fun _ => Or.inl hlen, fun _ => rfl⟩
  cases hf : headerFault buffer with
  | some status =>
    have hinvalid : ¬ ValidHeader buffer := by
      rw [← headerFault_eq_none_iff (by omega), hf]
      nofun
    obtain ⟨hok, hmore⟩ := headerFault_ne hf
    refine ⟨_, _, _, decode_fault (by omega) hf out, ?_, fun h => absurd h hok,
      fun _ => ⟨rfl, rfl⟩, ?_⟩
    · exact ⟨fun h => absurd h hok, fun h => absurd h.1 hinvalid⟩
    · exact ⟨fun h => absurd h hmore, fun h => h.elim (absurd · hlen) fun h => absurd h.1 hinvalid⟩
  | none =>
    have hv := (headerFault_eq_none_iff (by omega)).mp hf
    by_cases hshort : buffer.length < packetSize buffer
    · refine ⟨_, _, _, decode_incomplete hv hshort out, ?_, nofun, fun _ => ⟨rfl, rfl⟩, ?_⟩
      · exact ⟨nofun, fun h => absurd h.2 (by omega)⟩
      · exact ⟨fun _ => Or.inr ⟨hv, hshort⟩, fun _ => rfl⟩
    · refine ⟨_, _, _, decode_packet hv (by omega) out, ⟨fun _ => ⟨hv, by omega⟩, fun _ => rfl⟩,
        fun _ => ⟨rfl, by simp [frameOf], rfl, ?_⟩, fun h => absurd rfl h, ?_⟩
      · intro other hother hknown
        have hge := packetSize_ge hv
        obtain ⟨hv', hsize, hframe⟩ := known_bytes_determine hv (hge.trans hother) hknown
        rw [decode_packet hv' (hsize ▸ hother), hsize, hframe]
      · exact ⟨nofun, fun h => h.elim (absurd · hlen) fun h => absurd h.2 hshort⟩

end AebNode.Protocol
