import AebNode.ReaderPackets

/-! `angle_monitor.py`: the frame loop, which keeps the angle in degrees and the quality of
every point it shows, and the relay, which passes the raw bytes on to the viewers. -/
namespace AebNode.AngleMonitor
open LittleEndian Protocol Reader

/-- What one pass of the loop of `_decode_frames` does: append a frame, drop bytes, or leave
the loop to wait for more. -/
inductive Pass (α : Type)
  | frame (points : List α) (rest : Bytes)
  | skip (rest : Bytes)
  | wait
  deriving DecidableEq, Repr

section Decoder
variable {δ μ : Type} (degrees : FloatBits → δ) (metres : FloatBits → μ)

/-- The tuple appended for a visible point. -/
def anglePoint (p : Point) : δ × μ × UInt8 :=
  (degrees p.angleDeg, metres p.distanceMm, p.quality)

/-- The body of the loop, on a buffer of at least `HEADER_SIZE` bytes. A faulty magic is
skipped up to the next candidate, any other faulty header by one byte. -/
def decodePass (buffer : Bytes) : Option (Pass (δ × μ × UInt8)) := do
  if (← unpackFrom 4 buffer 0) ≠ magic then
    match ← nextCandidate buffer with
    | some i => return .skip (buffer.drop i)
    | none => return .skip (buffer.drop (buffer.length - 3))
  let version ← unpackFrom 2 buffer 4
  let headerSize ← unpackFrom 2 buffer 6
  if version ≠ Reader.version ∨ headerSize < Reader.headerSize then return .skip (buffer.drop 1)
  let flags ← unpackFrom 4 buffer 8
  let pointCount ← unpackFrom 4 buffer 24
  let pointStride ← unpackFrom 2 buffer 28
  if maxPoints < pointCount ∨ pointStride < Reader.pointStride then
    return .skip (buffer.drop 1)
  let trailer := if flags &&& flagCrc32 ≠ 0 then 4 else 0
  let packetSize := headerSize + pointCount * pointStride + trailer
  if buffer.length < packetSize then return .wait
  let points ← unpackPoints (anglePoint degrees metres) buffer pointStride pointCount headerSize
  return .frame points (buffer.drop packetSize)

/-- The loop of `_decode_frames`; `none` if `rounds` passes were not enough. -/
def decodeFramesLoop : ℕ → Bytes → Option (List (List (δ × μ × UInt8)) × Bytes)
  | 0, _ => none
  | rounds + 1, buffer => do
    if buffer.length < headerSize then return ([], buffer)
    match ← decodePass degrees metres buffer with
    | .frame points rest =>
      let (frames, rest) ← decodeFramesLoop rounds rest
      return (points :: frames, rest)
    | .skip rest => decodeFramesLoop rounds rest
    | .wait => return ([], buffer)

def decodeFrames (buffer : Bytes) : Option (List (List (δ × μ × UInt8)) × Bytes) :=
  decodeFramesLoop degrees metres (buffer.length + 1) buffer

/-- What a pass leaves of a buffer that starts with no packet. -/
def skipped (buffer : Bytes) : Bytes :=
  if field buffer 0 4 = magic then buffer.drop 1
  else match nextMagic buffer with
    | some i => buffer.drop i
    | none => buffer.drop (buffer.length - 3)

theorem decodePass_eq {buffer : Bytes} (h : 32 ≤ buffer.length) :
    decodePass degrees metres buffer = some (
      if Accepts buffer then
        .frame ((visiblePoints (frameOf buffer)).map (anglePoint degrees metres))
          (buffer.drop (packetSize buffer))
      else if LooseHeader buffer then .wait
      else .skip (skipped buffer)) := by
  have hmagic : unpackFrom 4 buffer 0 = some (field buffer 0 4) := unpackFrom_eq (by omega)
  have hversion : unpackFrom 2 buffer 4 = some (field buffer 4 2) := unpackFrom_eq (by omega)
  have hsize : unpackFrom 2 buffer 6 = some (headerSizeOf buffer) := unpackFrom_eq (by omega)
  have hflags : unpackFrom 4 buffer 8 = some (flagsOf buffer) := unpackFrom_eq (by omega)
  have hcount : unpackFrom 4 buffer 24 = some (pointCountOf buffer) := unpackFrom_eq (by omega)
  have hstride : unpackFrom 2 buffer 28 = some (pointStrideOf buffer) :=
    unpackFrom_eq (by omega)
  unfold decodePass
  simp only [hmagic, hversion, hsize, hflags, hcount, hstride, nextCandidate_eq,
    Option.bind_eq_bind, Option.bind_some, Option.pure_def]
  by_cases hloose : LooseHeader buffer
  · obtain ⟨h1, h2, h3⟩ := (looseHeader_checks h).mp hloose
    rw [if_neg (not_not.mpr h1), if_neg h2, if_neg h3, packetSize_eq]
    by_cases hshort : buffer.length < packetSize buffer
    · rw [if_pos hshort, if_neg (fun h => absurd h.2 (by omega)), if_pos hloose]
    · have haccepts : Accepts buffer := ⟨hloose, by omega⟩
      rw [if_neg hshort, if_pos haccepts, unpackPoints_packet _ haccepts, Option.bind_some]
  · have hreject : ¬ Accepts buffer := fun h => hloose h.1
    rw [if_neg hreject, if_neg hloose, skipped]
    by_cases h1 : field buffer 0 4 = magic
    · rw [if_neg (not_not.mpr h1), if_pos h1]
      split_ifs with h2 h3
      · rfl
      · rfl
      all_goals exact absurd ((looseHeader_checks h).mpr ⟨h1, h2, h3⟩) hloose
    · rw [if_pos h1, if_neg h1]
      cases nextMagic buffer <;> rfl

theorem skipped_length {buffer : Bytes} (h : 32 ≤ buffer.length) :
    (skipped buffer).length < buffer.length := by
  unfold skipped
  split_ifs with hmagic
  · rw [List.length_drop]
    omega
  · cases hi : nextMagic buffer with
    | some i =>
      have hge := (nextMagic_eq_some.mp hi).1
      simp only [List.length_drop]
      omega
    | none =>
      simp only [List.length_drop]
      omega

theorem decodeFramesLoop_total {rounds : ℕ} (buffer : Bytes) (h : buffer.length < rounds) :
    ∃ frames rest, decodeFramesLoop degrees metres rounds buffer = some (frames, rest) := by
  induction rounds generalizing buffer with
  | zero => omega
  | succ rounds ih =>
    rw [decodeFramesLoop]
    by_cases hshort : buffer.length < headerSize
    · exact ⟨[], buffer, if_pos hshort⟩
    have hcomplete : 32 ≤ buffer.length := not_lt.mp hshort
    rw [if_neg hshort, decodePass_eq degrees metres hcomplete]
    by_cases haccepts : Accepts buffer
    · have hge := packetSize_ge_header haccepts.1
      obtain ⟨frames, rest, hrest⟩ :=
        ih (buffer.drop (packetSize buffer)) (by rw [List.length_drop]; omega)
      exact ⟨(visiblePoints (frameOf buffer)).map (anglePoint degrees metres) :: frames, rest,
        by simp [haccepts, hrest]⟩
    rw [if_neg haccepts]
    by_cases hloose : LooseHeader buffer
    · exact ⟨[], buffer, by simp [hloose]⟩
    · have hlt := skipped_length hcomplete
      obtain ⟨frames, rest, hrest⟩ := ih (skipped buffer) (by omega)
      exact ⟨frames, rest, by simp [hloose, hrest]⟩

end Decoder

/-- A viewer of the relay: its socket and the bytes `sendall` has passed on to it. -/
structure Client where
  socket : ℕ
  sent : Bytes
  deriving DecidableEq, Repr

/-- `RelayServer.broadcast`; a client whose `sendall` raises `OSError` is dropped. -/
def broadcast (fails : ℕ → Bool) (clients : List Client) (data : Bytes) : List Client :=
  if data.length = 0 then clients
  else (clients.filter fun c => !fails c.socket).map fun c => { c with sent := c.sent ++ data }

/-- What one turn of the receive loop meets: the viewers that `_accept_loop` has appended since
the turn before, the chunk `recv` returns, and the sockets on which `sendall` fails. -/
structure Turn where
  arrivals : List ℕ
  chunk : Bytes
  fails : ℕ → Bool

section Session
variable {δ μ : Type} (degrees : FloatBits → δ) (metres : FloatBits → μ)

/-- The receive loop of `_run_session` from a partial buffer on. It ends when `recv` raises,
which is where the list ends, or returns nothing. -/
def sessionLoop : List Client → Bytes → List Turn →
    Option (List Client × List (List (List (δ × μ × UInt8))))
  | clients, _, [] => some (clients, [])
  | clients, buf, turn :: turns => do
    let clients := clients ++ turn.arrivals.map fun socket => ⟨socket, []⟩
    if turn.chunk.length = 0 then return (clients, [])
    let clients := broadcast turn.fails clients turn.chunk
    let (frames, buf) ← decodeFrames degrees metres (buf ++ turn.chunk)
    let (clients, reports) ← sessionLoop clients buf turns
    return (clients, frames :: reports)

/-- `_run_session`, which decodes into a fresh buffer. -/
def runSession (clients : List Client) (turns : List Turn) :
    Option (List Client × List (List (List (δ × μ × UInt8)))) :=
  sessionLoop degrees metres clients [] turns

/-- `run`: one session after the other. The relay and its clients stay. -/
def run : List Client → List (List Turn) →
    Option (List Client × List (List (List (List (δ × μ × UInt8)))))
  | clients, [] => some (clients, [])
  | clients, turns :: sessions => do
    let (clients, reports) ← runSession degrees metres clients turns
    let (clients, more) ← run clients sessions
    return (clients, reports :: more)

end Session

end AebNode.AngleMonitor
