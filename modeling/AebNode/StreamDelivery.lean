import AebNode.ViewerDraining
import AebNode.MonitorFraming
import AebNode.ServerStreams

/-! From `publish` to the screen. Whatever the interleaving in the server and the cuts of the
transport, the readers of a session show the frames popped for it, complete and in order, and
never meet a fault. -/
namespace AebNode
open ChunkedReading LittleEndian LidarViewer AngleMonitor Machine Protocol

namespace Reader

/-- The frames of a `drain` that met no fault. -/
def drainFrames (buffer : Bytes) : Option (List Frame × Bytes) := do
  let ((frames, status), buffer) ← drain buffer
  if status ≠ .needMoreData then none
  return (frames, buffer)

theorem encode_pos (frame : Frame) : 0 < (encode frame).length := by
  rw [encode_length]
  exact (Nat.zero_lt_succ 31).trans_le (encodedSize_ge frame)

theorem drainFrames_reads : ReadsPackets drainFrames encode truncated := by
  intro frames buffer rest h
  obtain ⟨done, left, kept, rfl, hloop, hleft, hhead⟩ :=
    @drainLoop_partial_stream _ _ _ {} _ h (Nat.lt_succ_self _)
  refine ⟨done, kept, ⟨left, rfl, hleft, ?_⟩, ?_⟩
  · simpa only [encode_length] using hhead
  · rw [drainFrames, drain, hloop]
    rfl

theorem drainFrames_some {buffer rest : Bytes} {frames : List Frame}
    (h : drainFrames buffer = some (frames, rest)) :
    drain buffer = some ((frames, .needMoreData), rest) := by
  simp only [drainFrames, Option.bind_eq_bind, Option.bind_eq_some_iff] at h
  obtain ⟨⟨⟨frames', status⟩, rest'⟩, hdrain, h⟩ := h
  by_cases hstatus : status = .needMoreData
  · simp only [hstatus, ne_eq, not_true_eq_false, if_false, Option.pure_def,
      Option.some.injEq, Prod.mk.injEq] at h
    obtain ⟨rfl, rfl⟩ := h
    rw [hdrain, hstatus]
  · simp [hstatus] at h

theorem feedAll_drainFrames {buffer kept : Bytes} {chunks : List Bytes}
    {reports : List (List Frame)}
    (h : readChunks drainFrames buffer chunks = some (reports, kept)) :
    feedAll drain buffer chunks =
      some (reports.map fun frames => (frames, .needMoreData), kept) := by
  induction chunks generalizing buffer reports with
  | nil =>
    obtain ⟨rfl, rfl⟩ := Prod.mk.inj (Option.some.inj h)
    rfl
  | cons chunk chunks ih =>
    rw [readChunks, Option.bind_eq_bind, Option.bind_eq_some_iff] at h
    obtain ⟨⟨frames, rest⟩, hread, h⟩ := h
    simp only [Option.bind_eq_bind, Option.bind_eq_some_iff] at h
    obtain ⟨⟨reports', kept'⟩, hrest, h⟩ := h
    obtain ⟨rfl, rfl⟩ := Prod.mk.inj (Option.some.inj h)
    rw [feedAll, feed_eq, drainFrames_some hread]
    simp [ih hrest]

theorem encode_accepts (frame : Frame) (tail : Bytes) : Accepts (encode frame ++ tail) := by
  refine ⟨looseHeader_of_valid (encode_valid frame tail), ?_⟩
  rw [encode_packetSize, List.length_append, encode_length]
  omega

theorem drop_encode (frame : Frame) (tail : Bytes) :
    (encode frame ++ tail).drop (packetSize (encode frame ++ tail)) = tail := by
  rw [encode_packetSize, ← encode_length, List.drop_left]

/-- The beginning of an encoded frame is no packet, but no fault either. -/
theorem encode_incomplete {frame : Frame} {buffer rest tail : Bytes}
    (h : buffer ++ rest = encode frame ++ tail) (hshort : buffer.length < (encode frame).length) :
    ¬ Accepts buffer ∧ (buffer.length < 32 ∨ LooseHeader buffer) := by
  by_cases hlen : buffer.length < 32
  · exact ⟨fun ha => absurd ha.1.complete (not_le.mpr hlen), Or.inl hlen⟩
  have hcomplete : 32 ≤ buffer.length := not_lt.mp hlen
  have hloose : LooseHeader buffer := by
    rw [← looseHeader_append hcomplete rest, h]
    exact (encode_accepts frame tail).1
  refine ⟨fun ha => ?_, Or.inr hloose⟩
  have hsize : packetSize buffer = (encode frame).length := by
    rw [← packetSize_append hcomplete rest, h, encode_packetSize, encode_length]
  exact absurd ha.2 (by omega)

section Readers
variable {ρ δ μ : Type} (radians : FloatBits → ρ) (degrees : FloatBits → δ)
  (metres : FloatBits → μ)

/-- What the viewer and the monitor show of a frame. -/
def viewed (frame : Frame) : List (ρ × μ) :=
  (visiblePoints (truncated frame)).map (scanPoint radians metres)

def monitored (frame : Frame) : List (δ × μ × UInt8) :=
  (visiblePoints (truncated frame)).map (anglePoint degrees metres)

theorem decodeAll_reads :
    ReadsPackets (decodeAll radians metres) encode (viewed radians metres) := by
  refine .of_loop (fun _ => rfl) encode_pos ?_ ?_ ?_
  · intro frame tail rounds
    rw [decodeAllLoop_packet radians metres (encode_accepts frame tail), drop_encode,
      frameOf_encode]
    rfl
  · intro rounds
    exact decodeAllLoop_stop radians metres (fun ha => absurd ha.1.complete (by simp)) rounds
  · intro frame buffer rest tail rounds h hshort
    obtain ⟨hreject, hwait⟩ := encode_incomplete h hshort
    rw [decodeAllLoop_stop radians metres hreject, if_pos hwait]

theorem decodeFrames_reads :
    ReadsPackets (decodeFrames degrees metres) encode (monitored degrees metres) := by
  refine .of_loop (fun _ => rfl) encode_pos ?_ ?_ ?_
  · intro frame tail rounds
    have haccepts := encode_accepts frame tail
    have hlong : ¬ (encode frame ++ tail).length < headerSize := not_lt.mpr haccepts.1.complete
    rw [decodeFramesLoop, if_neg hlong, decodePass_eq degrees metres haccepts.1.complete,
      if_pos haccepts, drop_encode, frameOf_encode]
    cases hrest : decodeFramesLoop degrees metres rounds tail <;> simp [hrest, monitored]
  · intro rounds
    rfl
  · intro frame buffer rest tail rounds h hshort
    obtain ⟨hreject, hwait⟩ := encode_incomplete h hshort
    by_cases hlen : buffer.length < 32
    · exact if_pos hlen
    · rw [decodeFramesLoop, if_neg (show ¬ buffer.length < headerSize from hlen),
        decodePass_eq degrees metres (not_lt.mp hlen), if_neg hreject,
        if_pos (hwait.resolve_left hlen)]
      rfl

/-- Each of the three readers, called after every chunk, shows exactly these frames and keeps
the same bytes. -/
structure Shown (chunks : List Bytes) (frames : List Frame) (kept : Bytes) : Prop where
  node : ∃ reports, feedAll drain [] chunks = some (reports, kept) ∧
    reports.flatMap Prod.fst = frames.map truncated ∧
    ∀ report ∈ reports, report.2 = .needMoreData
  viewer : ∃ reports, feedAll (decodeAll radians metres) [] chunks = some (reports, kept) ∧
    reports.flatten = frames.map (viewed radians metres)
  monitor : ∃ reports, readChunks (decodeFrames degrees metres) [] chunks = some (reports, kept) ∧
    reports.flatten = frames.map (monitored degrees metres)

/-- All three cut a stream of encoded frames at the same place. -/
theorem stream_shown {frames : List Frame} {chunks : List Bytes} {rest : Bytes}
    (h : chunks.flatten ++ rest = frames.flatMap encode) :
    ∃ done kept, CutAt encode frames rest done kept ∧
      Shown radians degrees metres chunks done kept := by
  have hhead : ∀ frame ∈ frames.head?, ([] : Bytes).length < (encode frame).length :=
    fun frame _ => encode_pos frame
  obtain ⟨done, reports, kept, hcut, hread, hshown⟩ := drainFrames_reads.readChunks h hhead
  obtain ⟨done₁, reports₁, kept₁, hcut₁, hread₁, hshown₁⟩ :=
    (decodeAll_reads radians metres).readChunks h hhead
  obtain ⟨done₂, reports₂, kept₂, hcut₂, hread₂, hshown₂⟩ :=
    (decodeFrames_reads degrees metres).readChunks h hhead
  obtain ⟨rfl, rfl⟩ := hcut.unique hcut₁
  obtain ⟨rfl, rfl⟩ := hcut.unique hcut₂
  rw [← feedAll_eq_readChunks] at hread₁
  refine ⟨done, kept, hcut, ⟨_, feedAll_drainFrames hread, ?_, by simp⟩,
    ⟨reports₁, hread₁, hshown₁⟩, ⟨reports₂, hread₂, hshown₂⟩⟩
  rw [List.flatMap_map, List.flatMap_id', hshown]

end Readers

end Reader

namespace TcpServer
open Reader

variable {ι : Type*}

def poppedFor (g : History ι) (k : ℕ) : List Entry :=
  (g.popped.filter fun e => e.1 = k).map Prod.snd

theorem stream_eq (g : History ι) (k : ℕ) :
    stream g k = ((poppedFor g k).map Entry.frame).flatMap encode := by
  simp [stream, poppedFor, List.flatMap_map]

theorem poppedFor_sublist (g : History ι) (k : ℕ) :
    (poppedFor g k).Sublist (g.popped.map Prod.snd) :=
  List.filter_sublist.map _

variable [DecidableEq ι]

theorem traced_invariant {capacity : ℕ} {as : List (Action ι)} {s : TcpServer ι} {g : History ι}
    (h : exec tracedStep (new capacity, {}) as = some (s, g)) :
    CallInvariant s g ∧ StreamInvariant s g := by
  have hstart : CallInvariant (new capacity : TcpServer ι) {} ∧
      StreamInvariant (new capacity : TcpServer ι) {} := by
    constructor
    · constructor <;> simp [new, PublishPc.beforePush]
    · refine ⟨?_, ?_, ?_, ?_, ?_, ?_, ?_⟩ <;> simp [new, FrameQueue.new]
      split_ifs <;> omega
  exact @exec_invariant _ _ tracedStep (fun sh => CallInvariant sh.1 sh.2 ∧
    StreamInvariant sh.1 sh.2) (fun _ _ _ inv hs => tracedStep_stream inv hs) _ _ _ hstart h

section Delivery
variable {ρ δ μ : Type} (radians : FloatBits → ρ) (degrees : FloatBits → δ)
  (metres : FloatBits → μ)

/-- What the readers show of a session are the first of the frames popped for it, and what they keep
is less than the next one; all of them once nothing is left to send or to receive. -/
theorem session_shown {capacity : ℕ} {as : List (Action ι)} {s : TcpServer ι} {g : History ι}
    (h : exec tracedStep (new capacity, {}) as = some (s, g)) {k : ℕ} {bytes : Bytes}
    (hk : s.connections[k]? = some bytes) {chunks : List Bytes}
    (hchunks : chunks.flatten <+: bytes) :
    ∃ done kept, done <+: poppedFor g k ∧
      Shown radians degrees metres chunks (done.map Entry.frame) kept ∧
      (∃ rest, CutAt encode ((poppedFor g k).map Entry.frame) rest (done.map Entry.frame) kept) ∧
      (s.session.socket = some k → s.session.unsent = [] → chunks.flatten = bytes →
        done = poppedFor g k ∧ kept = []) := by
  obtain ⟨-, streams⟩ := traced_invariant h
  obtain ⟨rest, hrest⟩ := hchunks.trans (streams.sent k bytes hk)
  rw [stream_eq] at hrest
  obtain ⟨shown, kept, hcut, hshown⟩ := stream_shown radians degrees metres hrest
  have hcut' := hcut
  obtain ⟨_, hsplit, -⟩ := hcut
  obtain ⟨done, left, hpopped, rfl, -⟩ := List.map_eq_append_iff.mp hsplit
  have hprefix : done <+: poppedFor g k := hpopped ▸ List.prefix_append _ _
  refine ⟨done, kept, hprefix, hshown, ⟨rest, hcut'⟩, fun hsocket hunsent hall => ?_⟩
  obtain ⟨bytes', hbytes', hstream⟩ := streams.current k hsocket
  obtain rfl := Option.some.inj (hk.symm.trans hbytes')
  rw [hunsent, List.append_nil, stream_eq, ← hall, ← hrest, List.self_eq_append_right] at hstream
  rw [hstream] at hcut'
  obtain ⟨hdone, hkept⟩ := hcut'.whole
  refine ⟨List.IsPrefix.eq_of_length hprefix ?_, hkept⟩
  simpa using congrArg List.length hdone

theorem poppedFor_entered {capacity : ℕ} {as : List (Action ι)} {s : TcpServer ι} {g : History ι}
    (h : exec tracedStep (new capacity, {}) as = some (s, g)) (k : ℕ) :
    (poppedFor g k).Sublist g.entered :=
  (poppedFor_sublist g k).trans
    ((List.sublist_append_left _ _).trans (traced_invariant h).2.order)

/-- In every run of the server, whatever the interleaving and the outcomes of `send`, and however
the bytes a session's socket has taken reach its peer: the node's decoder, the viewer and the
monitor show the same frames, which are the first of those popped for the session, each the
argument of a call of `publish` of its own; all three keep the same bytes, the start of the next
frame's packet and less than the whole of it; and once the session has nothing left to send and its
peer nothing to receive, they show them all. -/
theorem readers_show_published {capacity : ℕ} {as : List (Action ι)} {s : TcpServer ι}
    (h : exec step (new capacity) as = some s) {k : ℕ} {bytes : Bytes}
    (hk : s.connections[k]? = some bytes) {chunks : List Bytes}
    (hchunks : chunks.flatten <+: bytes) :
    ∃ g : History ι, exec tracedStep (new capacity, {}) as = some (s, g) ∧
      ∃ done kept, done <+: poppedFor g k ∧
        Shown radians degrees metres chunks (done.map Entry.frame) kept ∧
        (∃ rest, CutAt encode ((poppedFor g k).map Entry.frame) rest (done.map Entry.frame) kept) ∧
        (done.map Entry.call).Nodup ∧
        (∀ e ∈ done, (calledFrames as)[e.call]? = some e.frame) ∧
        (s.session.socket = some k → s.session.unsent = [] → chunks.flatten = bytes →
          done = poppedFor g k ∧ kept = []) := by
  obtain ⟨g, hg⟩ := exec_traced h {}
  have hcalls := (traced_invariant hg).1
  have hcalled := exec_called hg
  rw [List.nil_append] at hcalled
  obtain ⟨done, kept, hprefix, hshown, hcut, hall⟩ :=
    session_shown radians degrees metres hg hk hchunks
  have hentered : done.Sublist g.entered := hprefix.sublist.trans (poppedFor_entered hg k)
  refine ⟨g, hg, done, kept, hprefix, hshown, hcut, hcalls.nodup.sublist (hentered.map _), ?_,
    hall⟩
  intro e he
  rw [← hcalled]
  exact hcalls.entered e (hentered.subset he)

end Delivery

/-- A frame sent in two parts, and read in two other parts. -/
theorem readers_show_published_whole :
    let frame : Frame := ⟨7, 9, [⟨0x42B40000, 0x447A0000, 15⟩]⟩
    let as : List (Action Unit) := startActions ++ acceptActions ++ publishActions () frame ++
      wakeActions ++ [.io .pump, .io (.send (.written 10)), .io .pump, .io (.send (.written 32))]
    let chunks := [(encode frame).take 33, (encode frame).drop 33]
    ∃ s, exec step (new 4) as = some s ∧ s.connections[0]? = some (encode frame) ∧
      ∃ g : History Unit, exec tracedStep (new 4, {}) as = some (s, g) ∧
        Shown id id id chunks ((poppedFor g 0).map Entry.frame) [] := by
  intro frame as chunks
  have hrun : (exec step (new 4) as).map
      (fun s => (s.connections, s.session.socket, s.session.unsent)) =
      some ([encode frame], some 0, []) := by decide +kernel
  obtain ⟨s, hs, hlast⟩ := Option.map_eq_some_iff.mp hrun
  simp only [Prod.mk.injEq] at hlast
  obtain ⟨hconnections, hsocket, hunsent⟩ := hlast
  have hk : s.connections[0]? = some (encode frame) := by rw [hconnections]; rfl
  have hwhole : chunks.flatten = encode frame := by simp [chunks]
  obtain ⟨g, hg, done, kept, -, hshown, -, -, -, hall⟩ :=
    readers_show_published id id id hs hk (by rw [hwhole])
  obtain ⟨rfl, rfl⟩ := hall hsocket hunsent hwhole
  exact ⟨s, hs, hk, g, hg, hshown⟩

end TcpServer

end AebNode
