import AebNode.RelayTurns

/-! A reader that joins a stream inside a packet, as the viewers of the relay do. As long as no
magic value stands before the next packet, all three readers find their way back at it. -/
namespace AebNode.Reader
open AngleMonitor ChunkedReading LidarViewer LittleEndian Protocol

/-- No magic value starts before the first packet. -/
def Clear (junk : Bytes) (frames : List Frame) : Prop :=
  ∀ i < junk.length, field (junk ++ frames.flatMap encode) i 4 ≠ kMagic

theorem completeIn_header (frames : List Frame) {n : ℕ} (h : n < 32) :
    completeIn encode frames n = [] := by
  refine completeIn_short frames fun frame _ => h.trans_le ?_
  rw [encode_length]
  exact encodedSize_ge frame

theorem Clear.field_ne {junk c rest : Bytes} {frames : List Frame} (h : Clear junk frames)
    (hc : c ++ rest = junk ++ frames.flatMap encode) {i : ℕ} (hi : i < junk.length) :
    field c i 4 ≠ kMagic := by
  by_cases hfits : i + 4 ≤ c.length
  · rw [← field_append_left rest hfits, hc]
    exact h i hi
  · have hlt : field c i 4 < 256 ^ 3 := by
      refine (value_lt _).trans_le (Nat.pow_le_pow_right (by norm_num) ?_)
      rw [List.length_take, List.length_drop]
      omega
    have hbig : (256 : ℕ) ^ 3 ≤ kMagic := by decide
    omega

theorem recovers_stream {frames : List Frame} {buffer rest : Bytes}
    (h : buffer ++ rest = frames.flatMap encode) :
    ∃ kept, Recovers buffer ((completeIn encode frames buffer.length).map truncated) kept := by
  induction frames generalizing buffer with
  | nil =>
    obtain ⟨rfl, -⟩ := List.append_eq_nil_iff.mp h
    exact ⟨[], .short (by simp)⟩
  | cons frame frames ih =>
    rw [List.flatMap_cons] at h
    rw [completeIn]
    by_cases hfits : (encode frame).length ≤ buffer.length
    · obtain ⟨tail, rfl⟩ : encode frame <+: buffer :=
        List.prefix_of_prefix_length_le ⟨_, h.symm⟩ (List.prefix_append buffer rest) hfits
      rw [List.append_assoc, List.append_cancel_left_eq] at h
      obtain ⟨kept, hkept⟩ := ih h
      have hcomplete : packetSize (encode frame ++ tail) ≤ (encode frame ++ tail).length := by
        rw [encode_packetSize, ← encode_length, List.length_append]
        omega
      rw [if_pos hfits, List.map_cons, ← frameOf_encode frame tail, List.length_append,
        Nat.add_sub_cancel_left]
      refine ⟨kept, .packet (encode_valid frame tail) hcomplete ?_⟩
      rw [drop_encode]
      exact hkept
    · rw [if_neg hfits]
      by_cases hlen : buffer.length < 32
      · exact ⟨buffer, .short hlen⟩
      · have hvalid : ValidHeader buffer := by
          rw [← validHeader_append (not_lt.mp hlen) rest, h]
          exact encode_valid frame _
        have hsize : packetSize buffer = (encode frame).length := by
          rw [← packetSize_append (not_lt.mp hlen) rest, h, encode_packetSize, encode_length]
        exact ⟨buffer, .incomplete hvalid (by omega)⟩

/-- A reader that skips bytes without a magic value reads on behind them as from the start. -/
theorem reads_joined {β : Type} {Reads : Bytes → List β → Bytes → Prop} {view : Frame → β}
    (hshort : ∀ {c : Bytes}, c.length < 32 → Reads c [] c)
    (hstream : ∀ {frames : List Frame} {buffer rest : Bytes},
      buffer ++ rest = frames.flatMap encode →
        ∃ kept, Reads buffer ((completeIn encode frames buffer.length).map view) kept)
    (hskip : ∀ {c kept : Bytes} {items : List β} {q : ℕ}, 32 ≤ c.length → field c 0 4 ≠ kMagic →
      1 ≤ q → (∀ i, 1 ≤ i → i < q → field c i 4 ≠ kMagic) → Reads (c.drop q) items kept →
        ∃ kept', Reads c items kept')
    {junk c rest : Bytes} {frames : List Frame} (hclear : Clear junk frames)
    (h : c ++ rest = junk ++ frames.flatMap encode) :
    ∃ kept, Reads c ((completeIn encode frames (c.length - junk.length)).map view) kept := by
  rcases Nat.eq_zero_or_pos junk.length with hnone | hsome
  · obtain rfl := List.length_eq_zero_iff.mp hnone
    exact hstream h
  by_cases hlen : c.length < 32
  · rw [completeIn_header frames (by omega)]
    exact ⟨c, hshort hlen⟩
  have hmagic : field c 0 4 ≠ kMagic := hclear.field_ne h hsome
  by_cases hinside : c.length ≤ junk.length
  · have hnothing : Reads (c.drop c.length) [] (c.drop c.length) := by
      rw [List.drop_length]
      exact hshort (by simp)
    rw [Nat.sub_eq_zero_of_le hinside, completeIn_header frames (by norm_num)]
    exact hskip (not_lt.mp hlen) hmagic (by omega) (fun i _ hi => hclear.field_ne h (by omega))
      hnothing
  · obtain ⟨tail, rfl⟩ : junk <+: c :=
      List.prefix_of_prefix_length_le ⟨_, h.symm⟩ (List.prefix_append c rest) (by omega)
    have htail := h
    rw [List.append_assoc, List.append_cancel_left_eq] at htail
    obtain ⟨kept, hkept⟩ := hstream htail
    rw [List.length_append, Nat.add_sub_cancel_left]
    have hbehind : Reads ((junk ++ tail).drop junk.length)
        ((completeIn encode frames tail.length).map view) kept := by
      rw [List.drop_left]
      exact hkept
    exact hskip (not_lt.mp hlen) hmagic hsome (fun i _ hi => hclear.field_ne h hi) hbehind

section Readers
variable {ρ δ μ : Type} (radians : FloatBits → ρ) (degrees : FloatBits → δ)
  (metres : FloatBits → μ)

theorem decodes_stream {frames : List Frame} {buffer rest : Bytes}
    (h : buffer ++ rest = frames.flatMap encode) :
    ∃ kept, Decodes degrees metres buffer
      ((completeIn encode frames buffer.length).map (monitored degrees metres)) kept := by
  obtain ⟨shown, kept, hdecodes⟩ := decodes_total degrees metres buffer
  obtain ⟨done, kept', hcut, hread⟩ := decodeFrames_reads degrees metres h
  have hcomputes := (decodeFrames_resumable degrees metres).computes hdecodes
  obtain ⟨rfl, rfl⟩ := Prod.mk.inj (Option.some.inj (hcomputes.symm.trans hread))
  rw [← CutAt.eq_completeIn hcut h]
  exact ⟨_, hdecodes⟩

section Viewer
variable {junk : Bytes} {frames : List Frame}

/-- The viewer's buffer: a window that starts before the first packet, with no packet complete
behind it, or at the packet behind those shown. -/
def Stands (junk : Bytes) (frames : List Frame) (c buffer : Bytes) (shown : List Frame) : Prop :=
  (shown = [] ∧ ∃ q < junk.length, q ≤ c.length ∧ buffer = c.drop q ∧
    c.length < junk.length + 32) ∨
  (shown <+: frames ∧ junk.length + (shown.flatMap encode).length ≤ c.length ∧
    buffer = c.drop (junk.length + (shown.flatMap encode).length))

theorem magic_junk {c rest : Bytes} (h : c ++ rest = junk ++ frames.flatMap encode)
    (hlen : junk.length + 4 ≤ c.length) : field c junk.length 4 = kMagic := by
  rw [← field_append_left rest hlen, h, field_append_right _ le_rfl, Nat.sub_self]
  cases frames with
  | nil =>
    have hlength := congrArg List.length h
    simp only [List.length_append, List.flatMap_nil, List.length_nil] at hlength
    omega
  | cons frame frames =>
    rw [List.flatMap_cons]
    exact (encode_valid frame _).magic

theorem nextMagic_junk (hclear : Clear junk frames) {c rest : Bytes}
    (h : c ++ rest = junk ++ frames.flatMap encode) {q i : ℕ} (hq : q < junk.length)
    (hi : nextMagic (c.drop q) = some i) : q + i = junk.length := by
  obtain ⟨hge, hle, hmagic, hfirst⟩ := nextMagic_eq_some.mp hi
  rw [field_drop] at hmagic
  rw [List.length_drop] at hle
  have hbehind : junk.length ≤ q + i := by
    by_contra hlt
    exact hclear.field_ne h (not_le.mp hlt) hmagic
  by_contra hne
  refine hfirst (junk.length - q) (by omega) (by omega) ?_
  rw [field_drop, Nat.add_sub_cancel' hq.le]
  exact magic_junk h (by omega)

theorem nextMagic_none_junk {c rest : Bytes} (h : c ++ rest = junk ++ frames.flatMap encode)
    {q : ℕ} (hq : q < junk.length) (hnone : nextMagic (c.drop q) = none) :
    c.length < junk.length + 4 := by
  by_contra hlong
  rw [nextMagic_eq_none] at hnone
  refine hnone (junk.length - q) (by omega) (by rw [List.length_drop]; omega) ?_
  rw [field_drop, Nat.add_sub_cancel' hq.le]
  exact magic_junk h (by omega)

theorem stands_first {c : Bytes} (h : junk.length ≤ c.length) :
    Stands junk frames c (c.drop junk.length) [] :=
  Or.inr ⟨List.nil_prefix, h, rfl⟩

theorem resynced_junk (hclear : Clear junk frames) {c rest : Bytes}
    (h : c ++ rest = junk ++ frames.flatMap encode) {q : ℕ} (hq : q < junk.length)
    (hlong : 32 ≤ (c.drop q).length) : Stands junk frames c (resynced (c.drop q)) [] := by
  have hlength : (c.drop q).length = c.length - q := List.length_drop
  rw [resynced]
  cases hi : nextMagic (c.drop q) with
  | some i =>
    have hstart := nextMagic_junk hclear h hq hi
    obtain ⟨-, hle, -, -⟩ := nextMagic_eq_some.mp hi
    change Stands junk frames c ((c.drop q).drop i) []
    rw [List.drop_drop, hstart]
    exact stands_first (by omega)
  | none =>
    have hbound := nextMagic_none_junk h hq hi
    have hdrop : (c.drop q).drop ((c.drop q).length - 3) = c.drop (c.length - 3) := by
      rw [List.drop_drop, hlength]
      congr 1
      omega
    simp only [if_pos (show 3 < (c.drop q).length by omega), hdrop]
    -- The three bytes kept may be the first ones of the packet.
    by_cases hbefore : c.length - 3 < junk.length
    · exact Or.inl ⟨rfl, c.length - 3, hbefore, by omega, rfl, by omega⟩
    · rw [show c.length - 3 = junk.length by omega]
      exact stands_first (by omega)

/-- A call on a window that starts in the junk shows nothing; it may come to the packet. -/
theorem decodeAll_junk (hclear : Clear junk frames) {c rest : Bytes}
    (h : c ++ rest = junk ++ frames.flatMap encode) {q : ℕ} (hq : q < junk.length)
    (hqc : q ≤ c.length) :
    ∃ buffer, decodeAll radians metres (c.drop q) = some ([], buffer) ∧
      Stands junk frames c buffer [] := by
  have hfault : ¬ LooseHeader (c.drop q) := by
    intro hl
    have hmagic := hl.magic
    rw [field_drop, Nat.add_zero] at hmagic
    exact hclear.field_ne h hq hmagic
  refine ⟨_, decodeAllLoop_stop radians metres (fun ha => hfault ha.1) _, ?_⟩
  by_cases hshort : (c.drop q).length < 32
  · rw [if_pos (Or.inl hshort)]
    rw [List.length_drop] at hshort
    exact Or.inl ⟨rfl, q, hq, hqc, rfl, by omega⟩
  · rw [if_neg (not_or.mpr ⟨hshort, hfault⟩)]
    exact resynced_junk hclear h hq (not_lt.mp hshort)

theorem decodeAll_packets {c rest : Bytes} {shown : List Frame}
    (h : c ++ rest = junk ++ frames.flatMap encode) (hshown : shown <+: frames)
    (hlen : junk.length + (shown.flatMap encode).length ≤ c.length) :
    ∃ done buffer, decodeAll radians metres
        (c.drop (junk.length + (shown.flatMap encode).length)) =
          some (done.map (viewed radians metres), buffer) ∧
      Stands junk frames c buffer (shown ++ done) ∧
      shown ++ done = completeIn encode frames (c.length - junk.length) := by
  obtain ⟨left, rfl⟩ := hshown
  have hstart : (junk ++ shown.flatMap encode).length =
      junk.length + (shown.flatMap encode).length := List.length_append
  rw [List.flatMap_append, ← List.append_assoc] at h
  obtain ⟨buffer, rfl⟩ : junk ++ shown.flatMap encode <+: c :=
    List.prefix_of_prefix_length_le ⟨_, h.symm⟩ (List.prefix_append c rest) (by omega)
  rw [List.append_assoc, List.append_cancel_left_eq] at h
  rw [← hstart, List.drop_left]
  obtain ⟨done, kept, hcut, hread⟩ := decodeAll_reads radians metres h
  have hdone := CutAt.eq_completeIn hcut h
  obtain ⟨next, rfl, hkept, -⟩ := hcut
  rw [List.flatMap_append, ← hkept, ← List.append_assoc, List.append_cancel_right_eq] at h
  refine ⟨done, kept, hread, Or.inr ⟨?_, ?_, ?_⟩, ?_⟩
  · exact ⟨next, by simp⟩
  · simp only [h, List.length_append, List.flatMap_append]
    omega
  · have hwhole : junk ++ shown.flatMap encode ++ buffer =
        (junk ++ (shown ++ done).flatMap encode) ++ kept := by
      rw [h, List.flatMap_append]
      simp
    rw [hwhole, ← List.length_append, List.drop_left]
  · have hlength : (junk ++ shown.flatMap encode ++ buffer).length - junk.length =
        (shown.flatMap encode).length + buffer.length := by
      simp only [List.length_append]
      omega
    rw [hlength, completeIn_append, ← hdone]

/-- The viewer is never more than one chunk behind. -/
theorem viewer_joined (hclear : Clear junk frames) {chunks : List Bytes} {rest : Bytes}
    (h : chunks.flatten ++ rest = junk ++ frames.flatMap encode) :
    ∃ reports buffer shown, feedAll (decodeAll radians metres) [] chunks = some (reports, buffer) ∧
      reports.flatten = shown.map (viewed radians metres) ∧
      Stands junk frames chunks.flatten buffer shown ∧
      completeIn encode frames (chunks.dropLast.flatten.length - junk.length) <+: shown ∧
      shown <+: completeIn encode frames (chunks.flatten.length - junk.length) := by
  induction chunks using List.reverseRecOn generalizing rest with
  | nil =>
    refine ⟨[], [], [], rfl, rfl, ?_, ?_, List.nil_prefix⟩
    · rcases Nat.eq_zero_or_pos junk.length with hnone | hsome
      · exact Or.inr ⟨List.nil_prefix, by simp [hnone], by simp⟩
      · exact Or.inl ⟨rfl, 0, hsome, le_rfl, rfl, by simp⟩
    · rw [completeIn_header frames (by simp)]
  | append_singleton chunks chunk ih =>
    rw [List.flatten_append, List.flatten_singleton] at h ⊢
    have hpast : chunks.flatten ++ (chunk ++ rest) = junk ++ frames.flatMap encode := by
      rw [← List.append_assoc]
      exact h
    obtain ⟨reports, buffer, shown, hfeed, hshown, hstands, -, -⟩ := ih hpast
    rw [List.dropLast_concat]
    rcases hstands with ⟨rfl, q, hq, hqc, rfl, hshort⟩ | ⟨hfirst, hlen, rfl⟩
    · obtain ⟨buffer', hcall, hstands⟩ := decodeAll_junk radians metres hclear h hq
        (hqc.trans (by simp))
      refine ⟨reports ++ [[]], buffer', [], ?_, ?_, hstands, ?_, List.nil_prefix⟩
      · rw [feedAll_concat hfeed, ← List.drop_append_of_le_length hqc, hcall, Option.map_some]
      · simp [hshown]
      · rw [completeIn_header frames (by omega)]
    · obtain ⟨done, buffer', hcall, hstands, hall⟩ := decodeAll_packets radians metres h hfirst
        (hlen.trans (by simp))
      refine ⟨reports ++ [done.map (viewed radians metres)], buffer', shown ++ done, ?_, ?_,
        hstands, ?_, ?_⟩
      · rw [feedAll_concat hfeed, ← List.drop_append_of_le_length hlen, hcall, Option.map_some]
      · simp [hshown]
      · rw [hall]
        exact completeIn_mono frames (by rw [List.length_append]; omega)
      · rw [hall]

end Viewer

variable {junk rest : Bytes} {frames : List Frame} {chunks : List Bytes}

/-- A reader that joins a stream of packets behind any bytes without a magic value, and receives it
in any chunks: the recovering reader and the monitor emit exactly the frames whose packets are
complete, from the first one on; so does the viewer, except that the packets complete in the chunk
by which it finds the first one are shown only with the next chunk. -/
theorem late_joiner_shows (hclear : Clear junk frames)
    (h : chunks.flatten ++ rest = junk ++ frames.flatMap encode) :
    (∃ reports kept, feedAll recover [] chunks = some (reports, kept) ∧
      reports.flatten =
        (completeIn encode frames (chunks.flatten.length - junk.length)).map truncated) ∧
    (∃ reports kept, readChunks (decodeFrames degrees metres) [] chunks = some (reports, kept) ∧
      reports.flatten = (completeIn encode frames (chunks.flatten.length - junk.length)).map
        (monitored degrees metres)) ∧
    ∃ reports kept shown, feedAll (decodeAll radians metres) [] chunks = some (reports, kept) ∧
      reports.flatten = shown.map (viewed radians metres) ∧
      completeIn encode frames (chunks.dropLast.flatten.length - junk.length) <+: shown ∧
      shown <+: completeIn encode frames (chunks.flatten.length - junk.length) := by
  refine ⟨?_, ?_, ?_⟩
  · obtain ⟨kept, hrecovers⟩ := reads_joined (fun hc => Recovers.short hc) recovers_stream
      (fun hlen hmagic => recovers_skip hlen fun hv => hmagic hv.magic) hclear h
    rw [feedAll_eq_readChunks]
    exact recover_resumable.readChunks_reads hrecovers
  · obtain ⟨kept, hdecodes⟩ := reads_joined (fun hc => Decodes.short hc)
      (decodes_stream degrees metres) (fun hlen hmagic => decodes_skip hlen hmagic) hclear h
    exact (decodeFrames_resumable degrees metres).readChunks_reads hdecodes
  · obtain ⟨reports, kept, shown, hfeed, hshown, -, hbefore, hafter⟩ :=
      viewer_joined radians metres hclear h
    exact ⟨reports, kept, shown, hfeed, hshown, hbefore, hafter⟩

end Readers

/-- A reader that joins six bytes before a packet. -/
theorem late_joiner_shows_tail :
    let frame : Frame := ⟨1, 0, [⟨0x42B40000, 0x447A0000, 15⟩]⟩
    let junk := (encode frame).drop 36
    let chunks := [junk ++ (encode frame).take 20, (encode frame).drop 20]
    Clear junk [frame] ∧
      (∃ reports kept, feedAll recover [] chunks = some (reports, kept) ∧
        reports.flatten = [truncated frame]) ∧
      ∃ reports kept, readChunks (decodeFrames id id) [] chunks = some (reports, kept) ∧
        reports.flatten = [monitored id id frame] := by
  intro frame junk chunks
  have hclear : Clear junk [frame] := by
    unfold Clear
    decide +kernel
  have hchunks : chunks.flatten ++ [] = junk ++ [frame].flatMap encode := by decide +kernel
  have hone : completeIn encode [frame] (chunks.flatten.length - junk.length) = [frame] := by
    decide +kernel
  obtain ⟨hnode, hmonitor, -⟩ := late_joiner_shows id id id hclear hchunks
  rw [hone] at hnode hmonitor
  exact ⟨hclear, hnode, hmonitor⟩

section Relay
variable {ρ δ μ : Type} (radians : FloatBits → ρ) {degrees : FloatBits → δ}
  {metres : FloatBits → μ}

/-- Behind the relay, as long as the monitor has received an unbroken stream of packets: whatever
viewers join and fail meanwhile, each of them is passed the stream from behind what was passed on
before it joined, and while it is in the list all of it, whenever no chunk is under way. Where no
magic value stands in the rest of the packet that it joins in, it shows the frames behind it in
order and without a gap, and is never more than one chunk behind. -/
theorem relay_viewer_shows {as : List Monitor.Action} {s : Monitor}
    (h : Machine.exec (Monitor.step degrees metres) {} as = some s) {frames : List Frame}
    {rest : Bytes}
    (hstream : Monitor.upstream (Monitor.notes degrees metres as) ++ rest = frames.flatMap encode)
    (k : ℕ) :
    let missed := Monitor.missed (Monitor.notes degrees metres as) k
    let tail := (joinAt encode frames missed.length).1
    let after := (joinAt encode frames missed.length).2
    missed ++ s.delivered k <+: frames.flatMap encode ∧
      (s.pc.pending = [] → k ∈ s.clients →
        missed ++ s.delivered k = Monitor.upstream (Monitor.notes degrees metres as)) ∧
      (Clear tail after → ∀ chunks : List Bytes, chunks.flatten <+: s.delivered k →
        ∃ reports kept shown, feedAll (decodeAll radians metres) [] chunks = some (reports, kept) ∧
          reports.flatten = shown.map (viewed radians metres) ∧
          completeIn encode after (chunks.dropLast.flatten.length - tail.length) <+: shown ∧
          shown <+: completeIn encode after (chunks.flatten.length - tail.length)) := by
  intro missed tail after
  have hrelayed := Monitor.exec_relayed h
  have hupstream := hrelayed.streams.broadcast
  rw [← Monitor.missed_since _ k] at hupstream
  obtain ⟨unsent, hsince⟩ := hrelayed.streams.within k
  have hpassed : missed ++ (s.delivered k ++ (unsent ++ s.pc.unsent ++ rest)) =
      frames.flatMap encode := by
    rw [← hstream, ← hupstream, ← hsince]
    simp [missed]
  refine ⟨⟨_, (List.append_assoc _ _ _).trans hpassed⟩, fun hidle hk => ?_,
    fun hclear chunks hchunks => ?_⟩
  · obtain ⟨hdelivered, hall⟩ := hrelayed.streams.idle hidle
    rw [hdelivered k hk, ← hall]
    exact Monitor.missed_since _ k
  · obtain ⟨unread, hread⟩ := hchunks
    have hjoined : chunks.flatten ++ (unread ++ (unsent ++ s.pc.unsent ++ rest)) =
        tail ++ after.flatMap encode := by
      rw [← drop_stream, ← hpassed, List.drop_left, ← hread]
      simp only [List.append_assoc]
    obtain ⟨reports, kept, shown, hfeed, hshown, -, hbefore, hall⟩ :=
      viewer_joined radians metres hclear hjoined
    exact ⟨reports, kept, shown, hfeed, hshown, hbefore, hall⟩

end Relay

/-- A viewer joins the relay behind the first 36 bytes of a packet. -/
def lateViewerActions : List Monitor.Action :=
  [.connect true, .recv (some (plainPacket.take 36)), .snapshot, .finish, .decode, .accept true,
    .append, .recv (some (plainPacket.drop 36 ++ plainPacket ++ plainPacket)), .snapshot,
    .send none, .finish, .decode]

theorem relay_viewer_shows_late :
    let frame : Frame := ⟨1, 0, [⟨0x42B40000, 0x447A0000, 15⟩]⟩
    let chunks := [plainPacket.drop 36 ++ plainPacket.take 30, plainPacket.drop 30, plainPacket]
    ∃ s, Machine.exec (Monitor.step id id) {} lateViewerActions = some s ∧
      Monitor.missed (Monitor.notes id id lateViewerActions) 0 = plainPacket.take 36 ∧
      joinAt encode [frame, frame, frame] 36 = (plainPacket.drop 36, [frame, frame]) ∧
      Clear (plainPacket.drop 36) [frame, frame] ∧ chunks.flatten = s.delivered 0 ∧
      ∃ reports kept shown, feedAll (decodeAll id id) [] chunks = some (reports, kept) ∧
        reports.flatten = shown.map (viewed id id) ∧ [frame] <+: shown ∧
        shown <+: [frame, frame] := by
  intro frame chunks
  have hrun : (Machine.exec (Monitor.step id id) {} lateViewerActions).map
      (fun s => s.delivered 0) = some chunks.flatten := by decide +kernel
  obtain ⟨s, hs, hdelivered⟩ := Option.map_eq_some_iff.mp hrun
  have hstream : Monitor.upstream (Monitor.notes id id lateViewerActions) ++ [] =
      [frame, frame, frame].flatMap encode := by decide +kernel
  have hmissed : Monitor.missed (Monitor.notes id id lateViewerActions) 0 =
      plainPacket.take 36 := by
    decide +kernel
  have hjoin : joinAt encode [frame, frame, frame] 36 = (plainPacket.drop 36, [frame, frame]) := by
    decide +kernel
  have hclear : Clear (plainPacket.drop 36) [frame, frame] := by
    unfold Clear
    decide +kernel
  obtain ⟨-, -, hshows⟩ := relay_viewer_shows id hs hstream 0
  have hlength : (plainPacket.take 36).length = 36 := by decide +kernel
  rw [hmissed, hlength, hjoin] at hshows
  have hbefore : completeIn encode [frame, frame]
      (chunks.dropLast.flatten.length - (plainPacket.drop 36).length) = [frame] := by decide +kernel
  have hall : completeIn encode [frame, frame]
      (chunks.flatten.length - (plainPacket.drop 36).length) = [frame, frame] := by decide +kernel
  obtain ⟨reports, kept, shown, hfeed, hreports, hfirst, hlast⟩ :=
    hshows hclear chunks (by rw [hdelivered])
  exact ⟨s, hs, hmissed, hjoin, hclear, hdelivered.symm, reports, kept, shown, hfeed, hreports,
    hbefore ▸ hfirst, hall ▸ hlast⟩

end AebNode.Reader
