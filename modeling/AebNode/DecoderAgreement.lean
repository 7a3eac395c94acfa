import AebNode.AngleMonitor
import AebNode.LidarViewer

/-! The three decoders of the stream side by side. The Python readers accept a looser header
than the node's own decoder, which refuses unknown flags and oversized strides. -/
namespace AebNode.Reader
open LittleEndian Protocol LidarViewer AngleMonitor

/-- What a version 1 reader is to refuse: an unknown flag, or a header or stride past the
limits of the protocol. -/
def Unsupported (buffer : Bytes) : Prop :=
  (∃ i, i ≠ 0 ∧ (flagsOf buffer).testBit i = true) ∨ kMaxHeaderSize < headerSizeOf buffer ∨
    kMaxPointStride < pointStrideOf buffer

theorem validHeader_iff (buffer : Bytes) :
    ValidHeader buffer ↔ LooseHeader buffer ∧ ¬ Unsupported buffer := by
  constructor
  · intro h
    refine ⟨looseHeader_of_valid h, ?_⟩
    rintro (⟨i, hi, hbit⟩ | hsize | hstride)
    · exact hi (h.flags i hbit)
    · exact absurd h.headerSize_le (not_le.mpr hsize)
    · exact absurd h.pointStride_le (not_le.mpr hstride)
  · rintro ⟨h, hsupported⟩
    simp only [Unsupported, not_or, not_exists, not_and, not_lt] at hsupported
    obtain ⟨hflags, hsize, hstride⟩ := hsupported
    exact ⟨h.complete, h.magic, h.version, h.headerSize_ge, hsize, h.pointStride_ge, hstride,
      fun i hbit => not_imp_comm.mp (hflags i) (not_not.mpr hbit), h.pointCount_le⟩

/-- The node's decoder returns a frame exactly on the supported packets. -/
theorem decode_ok_iff {buffer rest : Bytes} {out frame : Frame} :
    decode buffer out = some (.ok, frame, rest) ↔ Accepts buffer ∧ ¬ Unsupported buffer ∧
      frame = frameOf buffer ∧ rest = buffer.drop (packetSize buffer) := by
  obtain ⟨status, frame', rest', hdecode, hok, hframe, -⟩ := decode_accepts_grammar buffer out
  rw [validHeader_iff] at hok
  rw [hdecode]
  constructor
  · intro h
    obtain ⟨rfl, rfl, rfl⟩ : status = .ok ∧ frame' = frame ∧ rest' = rest := by simpa using h
    obtain ⟨hf, -, hr, -⟩ := hframe rfl
    obtain ⟨⟨hloose, hsupported⟩, hfits⟩ := hok.mp rfl
    exact ⟨⟨hloose, hfits⟩, hsupported, hf, hr⟩
  · rintro ⟨⟨hloose, hfits⟩, hsupported, rfl, rfl⟩
    have hstatus := hok.mpr ⟨⟨hloose, hsupported⟩, hfits⟩
    obtain ⟨hf, -, hr, -⟩ := hframe hstatus
    rw [hstatus, hf, hr]

section Agreement
variable {ρ δ μ : Type} (radians : FloatBits → ρ) (degrees : FloatBits → δ)
  (metres : FloatBits → μ)

theorem tryDecodeOne_some_iff {buffer rest : Bytes} {points : List (ρ × μ)} :
    tryDecodeOne radians metres buffer = some (some points, rest) ↔ Accepts buffer ∧
      points = (visiblePoints (frameOf buffer)).map (scanPoint radians metres) ∧
      rest = buffer.drop (packetSize buffer) := by
  rw [tryDecodeOne_eq]
  by_cases h : Accepts buffer
  · rw [if_pos h]
    simp [h, eq_comm]
  · rw [if_neg h]
    split_ifs <;> simp [h]

theorem decodePass_frame_iff {buffer rest : Bytes} {points : List (δ × μ × UInt8)}
    (hlen : 32 ≤ buffer.length) :
    decodePass degrees metres buffer = some (.frame points rest) ↔ Accepts buffer ∧
      points = (visiblePoints (frameOf buffer)).map (anglePoint degrees metres) ∧
      rest = buffer.drop (packetSize buffer) := by
  rw [decodePass_eq degrees metres hlen]
  by_cases h : Accepts buffer
  · rw [if_pos h]
    simp [h, eq_comm]
  · rw [if_neg h]
    split_ifs <;> simp [h]

/-- Both readers emit a frame where the node's decoder returns `ok`, consume what it consumes
and show the visible points of its frame in order; an unsupported packet none of them takes. -/
structure Agree (buffer : Bytes) (out : Frame) : Prop where
  viewer : ∀ points rest, tryDecodeOne radians metres buffer = some (some points, rest) ↔
    ∃ frame, decode buffer out = some (.ok, frame, rest) ∧
      points = (visiblePoints frame).map (scanPoint radians metres)
  monitor : ∀ points rest, decodePass degrees metres buffer = some (.frame points rest) ↔
    ∃ frame, decode buffer out = some (.ok, frame, rest) ∧
      points = (visiblePoints frame).map (anglePoint degrees metres)
  refuse : Unsupported buffer →
    (∀ frame rest, decode buffer out ≠ some (.ok, frame, rest)) ∧
    (∀ points rest, tryDecodeOne radians metres buffer ≠ some (some points, rest)) ∧
    ∀ points rest, decodePass degrees metres buffer ≠ some (.frame points rest)

/-- The decoders agree on a buffer exactly when it does not begin with a complete packet that
has an unknown flag, an oversized header or an oversized stride: the readers emit that one. -/
theorem decoders_agree_iff (buffer : Bytes) (h : 32 ≤ buffer.length) (out : Frame) :
    Agree radians degrees metres buffer out ↔ ¬ (Accepts buffer ∧ Unsupported buffer) := by
  constructor
  · rintro hagree ⟨haccepts, hunsupported⟩
    have hviewer := (hagree.refuse hunsupported).2.1
    exact hviewer _ _ ((tryDecodeOne_some_iff radians metres).mpr ⟨haccepts, rfl, rfl⟩)
  · intro hsupported
    have hsupports : Accepts buffer → ¬ Unsupported buffer := not_and.mp hsupported
    refine ⟨?_, ?_, ?_⟩
    · intro points rest
      rw [tryDecodeOne_some_iff]
      constructor
      · rintro ⟨haccepts, rfl, rfl⟩
        exact ⟨_, decode_ok_iff.mpr ⟨haccepts, hsupports haccepts, rfl, rfl⟩, rfl⟩
      · rintro ⟨frame, hdecode, rfl⟩
        obtain ⟨haccepts, -, rfl, rfl⟩ := decode_ok_iff.mp hdecode
        exact ⟨haccepts, rfl, rfl⟩
    · intro points rest
      rw [decodePass_frame_iff degrees metres h]
      constructor
      · rintro ⟨haccepts, rfl, rfl⟩
        exact ⟨_, decode_ok_iff.mpr ⟨haccepts, hsupports haccepts, rfl, rfl⟩, rfl⟩
      · rintro ⟨frame, hdecode, rfl⟩
        obtain ⟨haccepts, -, rfl, rfl⟩ := decode_ok_iff.mp hdecode
        exact ⟨haccepts, rfl, rfl⟩
    · intro hunsupported
      have hreject : ¬ Accepts buffer := fun haccepts => hsupports haccepts hunsupported
      refine ⟨?_, ?_, ?_⟩
      · exact fun frame rest hdecode => hreject (decode_ok_iff.mp hdecode).1
      · exact fun points rest hframe =>
          hreject ((tryDecodeOne_some_iff radians metres).mp hframe).1
      · exact fun points rest hframe =>
          hreject ((decodePass_frame_iff degrees metres h).mp hframe).1

end Agreement

def plainPacket : Bytes := encode ⟨1, 0, [⟨0x42B40000, 0x447A0000, 15⟩]⟩

def unknownFlagPacket : Bytes := plainPacket.set 8 2

theorem decoders_agree_iff_plain :
    32 ≤ plainPacket.length ∧ Agree id id id plainPacket {} := by
  have hlen : 32 ≤ plainPacket.length := by decide +kernel
  have hsupported : ¬ (Accepts plainPacket ∧ Unsupported plainPacket) := by
    rintro ⟨-, ⟨i, hi, hbit⟩ | hsize | hstride⟩
    · have hflags : flagsOf plainPacket = 0 := by decide +kernel
      simp [hflags] at hbit
    · exact absurd hsize (by decide +kernel)
    · exact absurd hstride (by decide +kernel)
  exact ⟨hlen, (decoders_agree_iff id id id plainPacket hlen {}).mpr hsupported⟩

/-- The node refuses the packet with the unknown flag, both readers show its point. -/
theorem unknown_flag_is_shown :
    decode unknownFlagPacket {} = some (.badHeader, {}, unknownFlagPacket) ∧
      tryDecodeOne id id unknownFlagPacket = some (some [(0x42B40000, 0x447A0000)], []) ∧
      decodePass id id unknownFlagPacket = some (.frame [(0x42B40000, 0x447A0000, 15)] []) ∧
      ¬ Agree id id id unknownFlagPacket {} := by
  have hdecode : decode unknownFlagPacket {} = some (.badHeader, {}, unknownFlagPacket) := by
    decide +kernel
  have hviewer : tryDecodeOne id id unknownFlagPacket =
      some (some [(0x42B40000, 0x447A0000)], []) := by decide +kernel
  have hmonitor : decodePass id id unknownFlagPacket =
      some (.frame [(0x42B40000, 0x447A0000, 15)] []) := by decide +kernel
  refine ⟨hdecode, hviewer, hmonitor, fun hagree => ?_⟩
  obtain ⟨frame, hok, -⟩ := (hagree.viewer _ _).mp hviewer
  rw [hdecode] at hok
  cases hok

end AebNode.Reader
