import AebNode.ChunkedReading
import AebNode.PacketRoundTrip

/-! The documented feed/drain loop of a reader, and that it recovers every stream the encoder
writes, however the transport cuts it into reads. -/
namespace AebNode.Protocol
open ChunkedReading LittleEndian

/-- The drain loop: decode until the status is not `ok`. It reports the frames consumed and
the status it stopped on; `none` if `rounds` calls were not enough. -/
def drainLoop : ℕ → Bytes → Frame → Option ((List Frame × DecodeStatus) × Bytes)
  | 0, _, _ => none
  | rounds + 1, buffer, out => do
    let (status, out, buffer) ← decode buffer out
    if status ≠ .ok then return (([], status), buffer)
    let ((frames, last), buffer) ← drainLoop rounds buffer out
    return ((out :: frames, last), buffer)

def drain (buffer : Bytes) : Option ((List Frame × DecodeStatus) × Bytes) :=
  drainLoop (buffer.length + 1) buffer {}

/-- Feed one chunk after the other, draining the decoder with `drain` after each. -/
def feedAll {ρ : Type*} (drain : Bytes → Option (ρ × Bytes)) :
    Bytes → List Bytes → Option (List ρ × Bytes)
  | buffer, [] => some ([], buffer)
  | buffer, chunk :: chunks => do
    let (report, buffer) ← drain (feed buffer chunk)
    let (reports, buffer) ← feedAll drain buffer chunks
    return (report :: reports, buffer)

theorem feed_eq (buffer data : Bytes) : feed buffer data = buffer ++ data := by
  unfold feed
  split_ifs with h
  · rw [List.length_eq_zero_iff.mp h, List.append_nil]
  · rfl

theorem feedAll_eq_readChunks {β : Type*} (read : Bytes → Option (List β × Bytes))
    (buffer : Bytes) (chunks : List Bytes) :
    feedAll read buffer chunks = readChunks read buffer chunks := by
  induction chunks generalizing buffer with
  | nil => rfl
  | cons chunk chunks ih => simp only [feedAll, readChunks, feed_eq, ih]

theorem feedAll_concat {ρ : Type*} {drain : Bytes → Option (ρ × Bytes)} {buffer rest : Bytes}
    {reads : List Bytes} {reports : List ρ}
    (h : feedAll drain buffer reads = some (reports, rest)) (chunk : Bytes) :
    feedAll drain buffer (reads ++ [chunk]) =
      (drain (rest ++ chunk)).map fun r => (reports ++ [r.1], r.2) := by
  induction reads generalizing buffer reports with
  | nil =>
    obtain ⟨rfl, rfl⟩ := Prod.mk.inj (Option.some.inj h)
    rw [List.nil_append, feedAll, feed_eq]
    cases drain (buffer ++ chunk) <;> rfl
  | cons read reads ih =>
    rw [feedAll, Option.bind_eq_bind, Option.bind_eq_some_iff] at h
    obtain ⟨⟨report, buffer'⟩, hdrain, h⟩ := h
    simp only [Option.bind_eq_bind, Option.bind_eq_some_iff] at h
    obtain ⟨⟨reports', rest'⟩, hrest, h⟩ := h
    obtain ⟨rfl, rfl⟩ := Prod.mk.inj (Option.some.inj h)
    rw [List.cons_append, feedAll, hdrain, Option.bind_eq_bind, Option.bind_some]
    dsimp only
    rw [ih hrest]
    cases drain (rest' ++ chunk) <;> rfl

theorem drainLoop_needMoreData {buffer : Bytes} {out : Frame}
    (h : decode buffer out = some (.needMoreData, out, buffer)) (rounds : ℕ) :
    drainLoop (rounds + 1) buffer out = some (([], .needMoreData), buffer) := by
  rw [drainLoop, h]
  rfl

/-- On a prefix of an encoded stream the loop consumes the complete frames and keeps a proper
prefix of the next one. -/
theorem drainLoop_partial_stream {frames : List Frame} {buffer rest : Bytes} {out : Frame}
    {rounds : ℕ}
    (h : buffer ++ rest = frames.flatMap encode) (hr : buffer.length < rounds) :
    ∃ done left remaining, frames = done ++ left ∧
      drainLoop rounds buffer out = some ((done.map truncated, .needMoreData), remaining) ∧
      remaining ++ rest = left.flatMap encode ∧
      ∀ frame ∈ left.head?, remaining.length < encodedSize frame := by
  obtain ⟨rounds, rfl⟩ : ∃ n, rounds = n + 1 := ⟨rounds - 1, by omega⟩
  induction frames generalizing buffer out rounds with
  | nil =>
    obtain ⟨rfl, rfl⟩ := List.append_eq_nil_iff.mp h
    exact ⟨[], [], [], rfl, drainLoop_needMoreData (decode_short (by simp) out) rounds, rfl, nofun⟩
  | cons frame frames ih =>
    rw [List.flatMap_cons] at h
    by_cases hshort : buffer.length < encodedSize frame
    · refine ⟨[], frame :: frames, buffer, rfl, ?_, h, ?_⟩
      · exact drainLoop_needMoreData (decode_encode_short h hshort out) rounds
      · rintro _ ⟨⟩
        exact hshort
    · have hpacket : encode frame <+: buffer := by
        apply @List.prefix_of_prefix_length_le _ _ _ (buffer ++ rest)
        · exact h ▸ List.prefix_append _ _
        · exact List.prefix_append _ _
        · rw [encode_length]
          omega
      obtain ⟨tail, rfl⟩ := hpacket
      rw [List.append_assoc, List.append_cancel_left_eq] at h
      have hge := encodedSize_ge frame
      rw [List.length_append, encode_length] at hr
      obtain ⟨rounds, rfl⟩ : ∃ n, rounds = n + 1 := ⟨rounds - 1, by omega⟩
      obtain ⟨done, left, remaining, rfl, hloop, hleft, hhead⟩ :=
        @ih _ (truncated frame) h rounds (by omega)
      refine ⟨frame :: done, left, remaining, rfl, ?_, hleft, hhead⟩
      rw [drainLoop, decode_encode_append]
      simp [hloop]

/-- From a buffer that holds less than the next frame, the chunks of the rest of the stream
give exactly the remaining frames and leave nothing behind. -/
theorem feedAll_encode {frames : List Frame} {buffer : Bytes} {chunks : List Bytes}
    (h : buffer ++ chunks.flatten = frames.flatMap encode)
    (hhead : ∀ frame ∈ frames.head?, buffer.length < encodedSize frame) :
    ∃ reports, feedAll drain buffer chunks = some (reports, []) ∧
      reports.flatMap Prod.fst = frames.map truncated ∧
      ∀ report ∈ reports, report.2 = .needMoreData := by
  induction chunks generalizing frames buffer with
  | nil =>
    rw [List.flatten_nil, List.append_nil] at h
    cases frames with
    | nil => exact ⟨[], by rw [feedAll, h]; rfl, rfl, nofun⟩
    | cons frame frames =>
      have hlt := hhead frame rfl
      rw [h, List.flatMap_cons, List.length_append, encode_length] at hlt
      omega
  | cons chunk chunks ih =>
    rw [List.flatten_cons, ← List.append_assoc] at h
    obtain ⟨done, left, remaining, rfl, hloop, hleft, hnext⟩ :=
      @drainLoop_partial_stream _ _ _ {} _ h (Nat.lt_succ_self _)
    obtain ⟨reports, hreports, hframes, hstatus⟩ := ih hleft hnext
    refine ⟨(done.map truncated, .needMoreData) :: reports, ?_, ?_, ?_⟩
    · rw [feedAll, feed_eq, drain, hloop]
      simp [hreports]
    · rw [List.flatMap_cons, hframes, List.map_append]
    · exact List.forall_mem_cons.mpr ⟨rfl, hstatus⟩

/-- The encoder and the reader are inverse on streams: any way of cutting the concatenated
encodings into chunks yields the frames, cut to the point limit, with no status but `ok` and
`needMoreData` and an empty buffer at the end; and a plain packet is re-encoded as it was. -/
theorem stream_round_trip :
    (∀ (frames : List Frame) (chunks : List Bytes), chunks.flatten = frames.flatMap encode →
      ∃ reports, feedAll drain [] chunks = some (reports, []) ∧
        reports.flatMap Prod.fst = frames.map truncated ∧
        ∀ report ∈ reports, report.2 = .needMoreData) ∧
    (∀ frame : Frame, (encode frame).length = encodedSize frame) ∧
    ∀ (buffer : Bytes) (out : Frame), PlainPacket buffer →
      ∃ frame, decode buffer out = some (.ok, frame, []) ∧ encode frame = buffer := by
  refine ⟨?_, encode_length, ?_⟩
  · intro frames chunks h
    apply feedAll_encode
    · rw [List.nil_append, h]
    · intro frame _
      exact (Nat.zero_lt_succ 31).trans_le (encodedSize_ge frame)
  · intro buffer out h
    refine ⟨frameOf buffer, ?_, encode_frameOf h⟩
    rw [decode_packet h.valid (le_of_eq h.length.symm), ← h.length, List.drop_length]

end AebNode.Protocol
