import AebNode.ReaderPackets

/-! The streaming decoder of `lidar_viewer.py`. The conversions of a binary32 angle and
distance to the units it shows are parameters. -/
namespace AebNode.LidarViewer
open LittleEndian Protocol Reader

/-- `_resync`: drop bytes up to the next magic candidate, or all but the last three. -/
def resync (buffer : Bytes) : Option Bytes := do
  match ← nextCandidate buffer with
  | some i => return buffer.drop i
  | none => return if 3 < buffer.length then buffer.drop (buffer.length - 3) else buffer

section Decoder
variable {ρ μ : Type} (radians : FloatBits → ρ) (metres : FloatBits → μ)

def scanPoint (p : Point) : ρ × μ := (radians p.angleDeg, metres p.distanceMm)

/-- `_try_decode_one`: the frame returned, if any, and the buffer left behind. -/
def tryDecodeOne (buffer : Bytes) : Option (Option (List (ρ × μ)) × Bytes) := do
  if buffer.length < headerSize then return (none, buffer)
  if (← unpackFrom 4 buffer 0) ≠ magic then return (none, ← resync buffer)
  let version ← unpackFrom 2 buffer 4
  let headerSize ← unpackFrom 2 buffer 6
  if version ≠ Reader.version ∨ headerSize < Reader.headerSize then
    return (none, ← resync buffer)
  let flags ← unpackFrom 4 buffer 8
  let _sequence ← unpackFrom 4 buffer 12
  let _timestampUs ← unpackFrom 8 buffer 16
  let pointCount ← unpackFrom 4 buffer 24
  let pointStride ← unpackFrom 2 buffer 28
  if maxPoints < pointCount ∨ pointStride < Reader.pointStride then
    return (none, ← resync buffer)
  let trailer := if flags &&& flagCrc32 ≠ 0 then 4 else 0
  let packetSize := headerSize + pointCount * pointStride + trailer
  if buffer.length < packetSize then return (none, buffer)
  let points ← unpackPoints (scanPoint radians metres) buffer pointStride pointCount headerSize
  return (some points, buffer.drop packetSize)

/-- The loop of `decode_all`, which ends on the first attempt without a frame; `none` if
`rounds` attempts were not enough. -/
def decodeAllLoop : ℕ → Bytes → Option (List (List (ρ × μ)) × Bytes)
  | 0, _ => none
  | rounds + 1, buffer => do
    let (frame, buffer) ← tryDecodeOne radians metres buffer
    match frame with
    | none => return ([], buffer)
    | some frame =>
      let (frames, buffer) ← decodeAllLoop rounds buffer
      return (frame :: frames, buffer)

def decodeAll (buffer : Bytes) : Option (List (List (ρ × μ)) × Bytes) :=
  decodeAllLoop radians metres (buffer.length + 1) buffer

/-- What `_resync` leaves of a buffer. -/
def resynced (buffer : Bytes) : Bytes :=
  match nextMagic buffer with
  | some i => buffer.drop i
  | none => if 3 < buffer.length then buffer.drop (buffer.length - 3) else buffer

theorem resync_eq (buffer : Bytes) : resync buffer = some (resynced buffer) := by
  unfold resync resynced
  rw [nextCandidate_eq]
  cases nextMagic buffer <;> rfl

theorem tryDecodeOne_eq (buffer : Bytes) :
    tryDecodeOne radians metres buffer = some (
      if Accepts buffer then
        (some ((visiblePoints (frameOf buffer)).map (scanPoint radians metres)),
          buffer.drop (packetSize buffer))
      else if buffer.length < 32 ∨ LooseHeader buffer then (none, buffer)
      else (none, resynced buffer)) := by
  by_cases hlen : buffer.length < 32
  · have hreject : ¬ Accepts buffer := fun h => absurd h.1.complete (by omega)
    rw [if_neg hreject, if_pos (Or.inl hlen)]
    simp [tryDecodeOne, headerSize, hlen]
  have hmagic : unpackFrom 4 buffer 0 = some (field buffer 0 4) := unpackFrom_eq (by omega)
  have hversion : unpackFrom 2 buffer 4 = some (field buffer 4 2) := unpackFrom_eq (by omega)
  have hsize : unpackFrom 2 buffer 6 = some (headerSizeOf buffer) := unpackFrom_eq (by omega)
  have hflags : unpackFrom 4 buffer 8 = some (flagsOf buffer) := unpackFrom_eq (by omega)
  have hsequence : unpackFrom 4 buffer 12 = some (field buffer 12 4) := unpackFrom_eq (by omega)
  have htimestamp : unpackFrom 8 buffer 16 = some (field buffer 16 8) :=
    unpackFrom_eq (by omega)
  have hcount : unpackFrom 4 buffer 24 = some (pointCountOf buffer) := unpackFrom_eq (by omega)
  have hstride : unpackFrom 2 buffer 28 = some (pointStrideOf buffer) :=
    unpackFrom_eq (by omega)
  have hheader : ¬ buffer.length < headerSize := hlen
  unfold tryDecodeOne
  simp only [hheader, hmagic, hversion, hsize, hflags, hsequence, htimestamp, hcount, hstride,
    resync_eq, Option.bind_eq_bind, Option.bind_some, Option.pure_def, ↓reduceIte]
  by_cases hloose : LooseHeader buffer
  · obtain ⟨h1, h2, h3⟩ := (looseHeader_checks (by omega)).mp hloose
    rw [if_neg (not_not.mpr h1), if_neg h2, if_neg h3, packetSize_eq]
    by_cases hshort : buffer.length < packetSize buffer
    · rw [if_pos hshort, if_neg (fun h => absurd h.2 (by omega)), if_pos (Or.inr hloose)]
    · have haccepts : Accepts buffer := ⟨hloose, by omega⟩
      rw [if_neg hshort, if_pos haccepts, unpackPoints_packet _ haccepts, Option.bind_some]
  · have hreject : ¬ Accepts buffer := fun h => hloose h.1
    rw [if_neg hreject, if_neg (not_or.mpr ⟨hlen, hloose⟩)]
    by_cases h1 : field buffer 0 4 = magic
    · rw [if_neg (not_not.mpr h1)]
      split_ifs with h2 h3
      · rfl
      · rfl
      all_goals exact absurd ((looseHeader_checks (by omega)).mpr ⟨h1, h2, h3⟩) hloose
    · rw [if_pos h1]

theorem decodeAllLoop_packet {buffer : Bytes} (h : Accepts buffer) (rounds : ℕ) :
    decodeAllLoop radians metres (rounds + 1) buffer =
      (decodeAllLoop radians metres rounds (buffer.drop (packetSize buffer))).map fun r =>
        ((visiblePoints (frameOf buffer)).map (scanPoint radians metres) :: r.1, r.2) := by
  rw [decodeAllLoop, tryDecodeOne_eq, if_pos h]
  cases hrest : decodeAllLoop radians metres rounds (buffer.drop (packetSize buffer)) with
  | none => simp [hrest]
  | some r => simp [hrest]

theorem decodeAllLoop_stop {buffer : Bytes} (h : ¬ Accepts buffer) (rounds : ℕ) :
    decodeAllLoop radians metres (rounds + 1) buffer =
      some ([], if buffer.length < 32 ∨ LooseHeader buffer then buffer else resynced buffer) := by
  rw [decodeAllLoop, tryDecodeOne_eq, if_neg h]
  split_ifs <;> rfl

end Decoder

end AebNode.LidarViewer
