import AebNode.ProtocolGrammar

/-! One packet, both ways: the decoder reads back what the encoder wrote, and a version 1
packet without extensions is what the encoder writes for the frame it carries. -/
namespace AebNode.Protocol
open LittleEndian

/-- A frame as the encoder sends it, cut to the point limit. -/
def truncated (frame : Frame) : Frame :=
  { frame with points := frame.points.take kMaxPointsPerFrame }

theorem pointCount_eq (frame : Frame) :
    pointCount frame = min frame.points.length kMaxPointsPerFrame := by
  unfold pointCount
  split_ifs <;> omega

theorem take_pointCount (frame : Frame) :
    frame.points.take (pointCount frame) = (truncated frame).points := by
  rw [pointCount_eq, truncated, Nat.min_comm, ← List.take_take, List.take_length]

theorem truncated_length (frame : Frame) :
    (truncated frame).points.length = pointCount frame := by
  rw [truncated, List.length_take, pointCount_eq, Nat.min_comm]

theorem encodePoint_length (p : Point) : (encodePoint p).length = 10 := by
  simp [encodePoint, putFloat32, putUint_eq]

theorem encodeHeader_length (frame : Frame) : (encodeHeader frame).length = 32 := by
  simp [encodeHeader, putUint_eq]

theorem flatMap_encodePoint_length (points : List Point) :
    (points.flatMap encodePoint).length = points.length * 10 := by
  induction points with
  | nil => rfl
  | cons p points ih =>
    rw [List.flatMap_cons, List.length_append, encodePoint_length, ih, List.length_cons]
    ring

theorem encode_length (frame : Frame) : (encode frame).length = encodedSize frame := by
  rw [encode, take_pointCount, List.length_append, encodeHeader_length,
    flatMap_encodePoint_length, truncated_length]
  rfl

theorem encodedSize_ge (frame : Frame) : 32 ≤ encodedSize frame := Nat.le_add_right _ _

theorem header_fields (frame : Frame) (tail : Bytes) :
    let buffer := encodeHeader frame ++ tail
    field buffer 0 4 = kMagic ∧ field buffer 4 2 = kVersion ∧ headerSizeOf buffer = 32 ∧
      flagsOf buffer = 0 ∧ field buffer 12 4 = frame.sequence.toNat ∧
      field buffer 16 8 = frame.timestampUs.toNat ∧ pointCountOf buffer = pointCount frame ∧
      pointStrideOf buffer = 10 := by
  have hsequence := frame.sequence.toNat_lt
  have htimestamp := frame.timestampUs.toNat_lt
  have hcount : pointCount frame ≤ 65536 := by
    rw [pointCount_eq]
    exact min_le_right _ _
  -- Each field lies behind the blocks before it.
  simp (disch := decide) only [headerSizeOf, flagsOf, pointCountOf, pointStrideOf, encodeHeader,
    putUint_eq, List.append_assoc, field_bytes_past, Nat.reduceSub, field_bytes]
  refine ⟨rfl, rfl, rfl, rfl, ?_, ?_, ?_, rfl⟩ <;> apply Nat.mod_eq_of_lt <;> omega

theorem encodeHeader_valid (frame : Frame) (tail : Bytes) :
    ValidHeader (encodeHeader frame ++ tail) := by
  obtain ⟨hmagic, hversion, hsize, hflags, -, -, hcount, hstride⟩ := header_fields frame tail
  refine ⟨?_, hmagic, hversion, by omega, by omega, by omega, by omega, ?_, ?_⟩
  · rw [List.length_append, encodeHeader_length]
    omega
  · simp [hflags]
  · rw [hcount, pointCount_eq]
    exact min_le_right _ _

theorem encodeHeader_packetSize (frame : Frame) (tail : Bytes) :
    packetSize (encodeHeader frame ++ tail) = encodedSize frame := by
  obtain ⟨-, -, hsize, hflags, -, -, hcount, hstride⟩ := header_fields frame tail
  rw [packetSize, hsize, hflags, hcount, hstride]
  simp [encodedSize, kHeaderSizeV1, kPointStrideV1]

theorem recordAt_append_right {xs : Bytes} (ys : Bytes) {p : ℕ} (h : xs.length ≤ p) :
    recordAt (xs ++ ys) p = recordAt ys (p - xs.length) := by
  rw [recordAt, field_append_right _ h, field_append_right _ (by omega),
    field_append_right _ (by omega), recordAt, Nat.sub_add_comm h, Nat.sub_add_comm h]

theorem recordAt_encodePoint (p : Point) (tail : Bytes) :
    recordAt (encodePoint p ++ tail) 0 = p := by
  have hangle := p.angleDeg.toNat_lt
  have hdistance := p.distanceMm.toNat_lt
  have hquality := p.quality.toNat_lt
  simp (disch := decide) only [recordAt, encodePoint, putFloat32, putUint_eq, List.append_assoc,
    Nat.zero_add, field_bytes_past, Nat.reduceSub, field_bytes]
  simp [Nat.mod_eq_of_lt hangle, Nat.mod_eq_of_lt hdistance, Nat.mod_eq_of_lt hquality]

theorem records_encodePoint (points : List Point) (tail : Bytes) :
    (List.range points.length).map (fun i => recordAt (points.flatMap encodePoint ++ tail) (i * 10))
      = points := by
  induction points with
  | nil => rfl
  | cons p points ih =>
    have hnext : ∀ i, recordAt (encodePoint p ++ (points.flatMap encodePoint ++ tail))
        ((i + 1) * 10) = recordAt (points.flatMap encodePoint ++ tail) (i * 10) := by
      intro i
      rw [recordAt_append_right _ (by rw [encodePoint_length]; omega), encodePoint_length]
      congr 1
      omega
    rw [List.length_cons, List.range_succ_eq_map, List.map_cons, List.map_map, List.flatMap_cons,
      List.append_assoc, Nat.zero_mul, recordAt_encodePoint]
    congr 1
    calc (List.range points.length).map _
        = (List.range points.length).map fun i =>
            recordAt (points.flatMap encodePoint ++ tail) (i * 10) :=
          List.map_congr_left fun i _ => hnext i
      _ = points := ih

theorem frameOf_encode (frame : Frame) (tail : Bytes) :
    frameOf (encode frame ++ tail) = truncated frame := by
  have hsplit : encode frame ++ tail =
      encodeHeader frame ++ ((truncated frame).points.flatMap encodePoint ++ tail) := by
    rw [encode, take_pointCount, List.append_assoc]
  obtain ⟨-, -, hsize, -, hsequence, htimestamp, hcount, hstride⟩ :=
    header_fields frame ((truncated frame).points.flatMap encodePoint ++ tail)
  rw [hsplit, frameOf, hsequence, htimestamp, hcount, ← truncated_length]
  have hpoint : ∀ i, pointAt (encodeHeader frame ++
      ((truncated frame).points.flatMap encodePoint ++ tail)) i =
      recordAt ((truncated frame).points.flatMap encodePoint ++ tail) (i * 10) := by
    intro i
    have hpast : (encodeHeader frame).length ≤ 32 + i * 10 := by rw [encodeHeader_length]; omega
    rw [pointAt, hsize, hstride]
    refine (recordAt_append_right _ hpast).trans ?_
    rw [encodeHeader_length, Nat.add_sub_cancel_left]
  rw [List.map_congr_left fun i _ => hpoint i, records_encodePoint]
  simp [truncated]

theorem encode_append (frame : Frame) (tail : Bytes) : encode frame ++ tail =
    encodeHeader frame ++ ((frame.points.take (pointCount frame)).flatMap encodePoint ++ tail) := by
  rw [encode, List.append_assoc]

theorem encode_valid (frame : Frame) (tail : Bytes) : ValidHeader (encode frame ++ tail) :=
  encode_append frame tail ▸ encodeHeader_valid frame _

theorem encode_packetSize (frame : Frame) (tail : Bytes) :
    packetSize (encode frame ++ tail) = encodedSize frame := by
  rw [encode_append, encodeHeader_packetSize]

/-- Decoding at the start of an encoded frame returns it and drops exactly its bytes. -/
theorem decode_encode_append (frame : Frame) (tail : Bytes) (out : Frame) :
    decode (encode frame ++ tail) out = some (.ok, truncated frame, tail) := by
  have hsize : packetSize (encode frame ++ tail) = (encode frame).length := by
    rw [encode_packetSize, encode_length]
  rw [decode_packet (encode_valid frame tail) (by rw [hsize, List.length_append]; omega), hsize,
    List.drop_left, frameOf_encode]

/-- A proper prefix of an encoded frame asks for more data. -/
theorem decode_encode_short {frame : Frame} {buffer rest tail : Bytes}
    (h : buffer ++ rest = encode frame ++ tail) (hshort : buffer.length < encodedSize frame)
    (out : Frame) : decode buffer out = some (.needMoreData, out, buffer) := by
  by_cases hlen : buffer.length < 32
  · exact decode_short hlen out
  have hhead : encodeHeader frame <+: buffer := by
    apply @List.prefix_of_prefix_length_le _ _ _ (buffer ++ rest)
    · rw [h, encode, List.append_assoc]
      exact List.prefix_append _ _
    · exact List.prefix_append _ _
    · rw [encodeHeader_length]
      omega
  obtain ⟨more, rfl⟩ := hhead
  exact decode_incomplete (encodeHeader_valid frame more)
    (by rw [encodeHeader_packetSize]; exact hshort) out

/-- One well-formed packet of version 1 as its own encoder lays it out: no extension of
header or stride, no trailer, and nothing in the reserved bytes. -/
structure PlainPacket (buffer : Bytes) : Prop where
  valid : ValidHeader buffer
  headerSize : headerSizeOf buffer = 32
  pointStride : pointStrideOf buffer = 10
  flags : flagsOf buffer = 0
  reserved : field buffer 30 2 = 0
  pointReserved : ∀ i < pointCountOf buffer, field buffer (32 + i * 10 + 9) 1 = 0
  length : buffer.length = packetSize buffer

theorem encodePoint_recordAt {buffer : Bytes} {p : ℕ} (h : p + 10 ≤ buffer.length)
    (hreserved : field buffer (p + 9) 1 = 0) :
    encodePoint (recordAt buffer p) ++ buffer.drop (p + 10) = buffer.drop p := by
  have hangle : field buffer p 4 % 4294967296 = field buffer p 4 :=
    Nat.mod_eq_of_lt (field_lt buffer p 4)
  have hdistance : field buffer (p + 4) 4 % 4294967296 = field buffer (p + 4) 4 :=
    Nat.mod_eq_of_lt (field_lt buffer (p + 4) 4)
  have hquality : field buffer (p + 8) 1 % 256 = field buffer (p + 8) 1 :=
    Nat.mod_eq_of_lt (field_lt buffer (p + 8) 1)
  rw [drop_eq_bytes_append (n := 4) (by omega : p + 4 ≤ buffer.length),
    drop_eq_bytes_append (n := 4) (by omega : p + 4 + 4 ≤ buffer.length),
    drop_eq_bytes_append (n := 1) (by omega : p + 8 + 1 ≤ buffer.length),
    drop_eq_bytes_append (n := 1) (by omega : p + 9 + 1 ≤ buffer.length), hreserved]
  simp [encodePoint, recordAt, putFloat32, putUint_eq, hangle, hdistance, hquality, Nat.add_assoc]

theorem encodePoint_records {buffer : Bytes} {count p : ℕ} (h : p + count * 10 = buffer.length)
    (hreserved : ∀ i < count, field buffer (p + i * 10 + 9) 1 = 0) :
    ((List.range count).map fun i => recordAt buffer (p + i * 10)).flatMap encodePoint =
      buffer.drop p := by
  induction count generalizing p with
  | zero => simp [show buffer.length ≤ p by omega]
  | succ count ih =>
    have hrest := ih (p := p + 10) (by omega) fun i hi => by
      have := hreserved (i + 1) (by omega)
      rwa [show p + (i + 1) * 10 = p + 10 + i * 10 by ring] at this
    have hfirst := hreserved 0 (by omega)
    rw [Nat.zero_mul, Nat.add_zero] at hfirst
    rw [← encodePoint_recordAt (by omega) hfirst, ← hrest, List.range_succ_eq_map, List.map_cons,
      List.flatMap_cons, List.map_map, Nat.zero_mul, Nat.add_zero]
    simp only [Function.comp_def, Nat.succ_eq_add_one, Nat.succ_mul, Nat.add_assoc,
      Nat.add_comm 10]

/-- Encoding the frame a plain packet carries gives back the packet. -/
theorem encode_frameOf {buffer : Bytes} (h : PlainPacket buffer) :
    encode (frameOf buffer) = buffer := by
  have hcomplete := h.valid.complete
  have hcount : pointCount (frameOf buffer) = pointCountOf buffer := by
    have := h.valid.pointCount_le
    simp only [pointCount_eq, frameOf, List.length_map, List.length_range, kMaxPointsPerFrame]
    omega
  have hlength : 32 + pointCountOf buffer * 10 = buffer.length := by
    rw [h.length, packetSize, h.headerSize, h.pointStride, h.flags]
    simp
  have hpoints : (frameOf buffer).points.flatMap encodePoint = buffer.drop 32 := by
    have hpoint : ∀ i, pointAt buffer i = recordAt buffer (32 + i * 10) := by
      intro i
      rw [pointAt, h.headerSize, h.pointStride]
    rw [← encodePoint_records hlength h.pointReserved, frameOf,
      List.map_congr_left fun i _ => hpoint i]
  have hheader : encodeHeader (frameOf buffer) ++ buffer.drop 32 = buffer := by
    conv_rhs => rw [← List.drop_zero (l := buffer)]
    rw [drop_eq_bytes_append (n := 4) (by omega : 0 + 4 ≤ buffer.length),
      drop_eq_bytes_append (n := 2) (by omega : 4 + 2 ≤ buffer.length),
      drop_eq_bytes_append (n := 2) (by omega : 6 + 2 ≤ buffer.length),
      drop_eq_bytes_append (n := 4) (by omega : 8 + 4 ≤ buffer.length),
      drop_eq_bytes_append (n := 4) (by omega : 12 + 4 ≤ buffer.length),
      drop_eq_bytes_append (n := 8) (by omega : 16 + 8 ≤ buffer.length),
      drop_eq_bytes_append (n := 4) (by omega : 24 + 4 ≤ buffer.length),
      drop_eq_bytes_append (n := 2) (by omega : 28 + 2 ≤ buffer.length),
      drop_eq_bytes_append (n := 2) (by omega : 30 + 2 ≤ buffer.length),
      h.valid.magic, h.valid.version, h.reserved]
    have hsize := h.headerSize
    have hflags := h.flags
    have hstride := h.pointStride
    rw [headerSizeOf] at hsize
    rw [flagsOf] at hflags
    rw [pointStrideOf] at hstride
    have hsequence : field buffer 12 4 % 4294967296 = field buffer 12 4 :=
      Nat.mod_eq_of_lt (field_lt buffer 12 4)
    have htimestamp : field buffer 16 8 % 18446744073709551616 = field buffer 16 8 :=
      Nat.mod_eq_of_lt (field_lt buffer 16 8)
    rw [hsize, hflags, hstride, encodeHeader, hcount, pointCountOf]
    simp [frameOf, putUint_eq, hsequence, htimestamp, kHeaderSizeV1, kPointStrideV1]
  rw [encode, hcount, List.take_of_length_le (by simp [frameOf]), hpoints, hheader]

end AebNode.Protocol
