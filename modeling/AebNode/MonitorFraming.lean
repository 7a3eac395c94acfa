import AebNode.AngleMonitor
import AebNode.ReaderFraming

/-! The monitor on a stream it receives in chunks. A faulty magic is skipped to the next
candidate or up to the last three bytes, any other faulty header by one byte; neither makes what
it emits depend on how much of the stream has arrived. -/
namespace AebNode.AngleMonitor
open ChunkedReading LittleEndian Protocol Reader

section Decoder
variable {δ μ : Type} (degrees : FloatBits → δ) (metres : FloatBits → μ)

/-- What `_decode_frames` emits on a buffer and what it keeps, as a big-step relation. -/
inductive Decodes : Bytes → List (List (δ × μ × UInt8)) → Bytes → Prop
  | short {buffer} (h : buffer.length < 32) : Decodes buffer [] buffer
  | incomplete {buffer} (hl : LooseHeader buffer) (h : buffer.length < packetSize buffer) :
      Decodes buffer [] buffer
  | packet {buffer frames rest} (ha : Accepts buffer)
      (tail : Decodes (buffer.drop (packetSize buffer)) frames rest) :
      Decodes buffer ((shown buffer).map (anglePoint degrees metres) :: frames) rest
  | skip {buffer frames rest} (h : 32 ≤ buffer.length) (hv : ¬ LooseHeader buffer)
      (tail : Decodes (skipped buffer) frames rest) : Decodes buffer frames rest

theorem decodes_total (buffer : Bytes) :
    ∃ frames rest, Decodes degrees metres buffer frames rest := by
  induction h : buffer.length using Nat.strong_induction_on generalizing buffer with
  | h n ih =>
    subst h
    by_cases hlen : buffer.length < 32
    · exact ⟨[], buffer, .short hlen⟩
    by_cases hl : LooseHeader buffer
    · by_cases hp : buffer.length < packetSize buffer
      · exact ⟨[], buffer, .incomplete hl hp⟩
      · have hge := packetSize_ge_header hl
        obtain ⟨frames, rest, htail⟩ :=
          ih _ (by rw [List.length_drop]; omega) (buffer.drop (packetSize buffer)) rfl
        exact ⟨_, rest, .packet ⟨hl, by omega⟩ htail⟩
    · have hlt := skipped_length (not_lt.mp hlen)
      obtain ⟨frames, rest, htail⟩ := ih _ hlt (skipped buffer) rfl
      exact ⟨frames, rest, .skip (not_lt.mp hlen) hl htail⟩

variable {degrees metres}

theorem decodeFramesLoop_eq {buffer rest : Bytes} {frames : List (List (δ × μ × UInt8))}
    (h : Decodes degrees metres buffer frames rest) {rounds : ℕ} (hr : buffer.length < rounds) :
    decodeFramesLoop degrees metres rounds buffer = some (frames, rest) := by
  obtain ⟨rounds, rfl⟩ : ∃ n, rounds = n + 1 := ⟨rounds - 1, by omega⟩
  induction h generalizing rounds with
  | short h => exact if_pos h
  | incomplete hl h =>
    rename_i buffer
    have hlong : ¬ buffer.length < headerSize := not_lt.mpr hl.complete
    have hreject : ¬ Accepts buffer := fun ha => absurd ha.2 (not_le.mpr h)
    rw [decodeFramesLoop, if_neg hlong, decodePass_eq degrees metres hl.complete, if_neg hreject,
      if_pos hl]
    rfl
  | packet ha tail ih =>
    rename_i buffer frames rest
    have hge := packetSize_ge_header ha.1
    have hfits := ha.2
    obtain ⟨rounds, rfl⟩ : ∃ n, rounds = n + 1 := ⟨rounds - 1, by omega⟩
    have htail := ih rounds (by rw [List.length_drop]; omega)
    have hlong : ¬ buffer.length < headerSize := not_lt.mpr ha.1.complete
    rw [decodeFramesLoop, if_neg hlong, decodePass_eq degrees metres ha.1.complete, if_pos ha]
    simp [htail, shown]
  | skip h hv tail ih =>
    rename_i buffer frames rest
    have hlong : ¬ buffer.length < headerSize := not_lt.mpr h
    have hlt := skipped_length h
    obtain ⟨rounds, rfl⟩ : ∃ n, rounds = n + 1 := ⟨rounds - 1, by omega⟩
    have htail := ih rounds (by omega)
    rw [decodeFramesLoop, if_neg hlong, decodePass_eq degrees metres h,
      if_neg (fun ha => hv ha.1), if_neg hv]
    simp [htail]

theorem skipped_none {buffer : Bytes} (h : 32 ≤ buffer.length) (hmagic : field buffer 0 4 ≠ magic)
    (hi : nextMagic buffer = none) : (skipped buffer).length = 3 := by
  rw [skipped, if_neg hmagic, hi, List.length_drop]
  omega

theorem skipped_some {buffer : Bytes} {i : ℕ} (hmagic : field buffer 0 4 ≠ magic)
    (hi : nextMagic buffer = some i) : skipped buffer = buffer.drop i := by
  rw [skipped, if_neg hmagic, hi]

theorem decodes_short {buffer rest : Bytes} {frames : List (List (δ × μ × UInt8))}
    (h : Decodes degrees metres buffer frames rest) (hlen : buffer.length < 32) : frames = [] := by
  cases h with
  | short => rfl
  | incomplete => rfl
  | packet ha => exact absurd ha.1.complete (not_le.mpr hlen)
  | skip h => exact absurd h (not_le.mpr hlen)

/-- Behind a faulty magic, bytes that start no magic value may be skipped at once: reading from
the end of any such stretch emits the same frames. -/
theorem decodes_skip {buffer rest : Bytes} {frames : List (List (δ × μ × UInt8))} {q : ℕ}
    (h : 32 ≤ buffer.length) (hmagic : field buffer 0 4 ≠ magic) (hq : 1 ≤ q)
    (hclear : ∀ i, 1 ≤ i → i < q → field buffer i 4 ≠ kMagic)
    (hrest : Decodes degrees metres (buffer.drop q) frames rest) :
    ∃ kept, Decodes degrees metres buffer frames kept := by
  have hlen : (buffer.drop q).length = buffer.length - q := List.length_drop
  have hv : ¬ LooseHeader buffer := fun hl => hmagic hl.magic
  cases hi : nextMagic buffer with
  | some i =>
    have hskip := skipped_some hmagic hi
    rcases (le_of_nextMagic hi hclear).eq_or_lt with rfl | hqi
    · exact ⟨rest, .skip h hv (hskip ▸ hrest)⟩
    obtain ⟨hzero, hsame⟩ := nextMagic_drop hi hq hqi
    cases hrest with
    | short hs =>
      refine ⟨buffer.drop i, .skip h hv ?_⟩
      rw [hskip]
      exact .short (by rw [List.length_drop]; omega)
    | incomplete hl => exact absurd hl.magic hzero
    | packet ha => exact absurd ha.1.magic hzero
    | skip _ _ tail =>
      rw [skipped_some hzero hsame, List.drop_drop, Nat.add_sub_cancel' hqi.le] at tail
      exact ⟨rest, .skip h hv (hskip ▸ tail)⟩
  | none =>
    have hempty : frames = [] := by
      by_cases hs : (buffer.drop q).length < 32
      · exact decodes_short hrest hs
      obtain ⟨hzero, hsame⟩ := nextMagic_drop_none hi hq (by omega)
      cases hrest with
      | short => rfl
      | incomplete => rfl
      | packet ha => exact absurd ha.1.magic hzero
      | skip h' _ tail =>
        have hleft := skipped_none h' hzero hsame
        exact decodes_short tail (by omega)
    subst hempty
    have hleft := skipped_none h hmagic hi
    exact ⟨skipped buffer, .skip h hv (.short (by omega))⟩

/-- Reading what was kept, followed by more bytes, continues the reading of the whole. -/
theorem decodes_append {buffer rest : Bytes} {frames : List (List (δ × μ × UInt8))}
    (h : Decodes degrees metres buffer frames rest) {more kept : Bytes}
    {next : List (List (δ × μ × UInt8))} (hmore : Decodes degrees metres (rest ++ more) next kept) :
    ∃ kept', Decodes degrees metres (buffer ++ more) (frames ++ next) kept' := by
  induction h with
  | short => exact ⟨kept, hmore⟩
  | incomplete => exact ⟨kept, hmore⟩
  | packet ha tail ih =>
    obtain ⟨kept', hkept⟩ := ih hmore
    rw [← List.drop_append_of_le_length ha.2, ← packetSize_append ha.1.complete more] at hkept
    refine ⟨kept', ?_⟩
    rw [List.cons_append, ← shown_append ha more]
    exact .packet (accepts_append ha more) hkept
  | skip h hv tail ih =>
    rename_i buffer frames rest
    obtain ⟨kept', hkept⟩ := ih hmore
    have hlong : 32 ≤ (buffer ++ more).length := by
      rw [List.length_append]
      omega
    have hloose : ¬ LooseHeader (buffer ++ more) := mt (looseHeader_append h more).mp hv
    have hhead : field (buffer ++ more) 0 4 = field buffer 0 4 := field_append_left more (by omega)
    by_cases hmagic : field buffer 0 4 = magic
    · refine ⟨kept', .skip hlong hloose ?_⟩
      rw [skipped, if_pos hmagic] at hkept
      rw [skipped, if_pos (hhead.trans hmagic), List.drop_append_of_le_length (by omega)]
      exact hkept
    have hfaulty : field (buffer ++ more) 0 4 ≠ magic := hhead ▸ hmagic
    cases hi : nextMagic buffer with
    | some i =>
      have hle := (nextMagic_eq_some.mp hi).2.1
      refine ⟨kept', .skip hlong hloose ?_⟩
      rw [skipped_some hmagic hi] at hkept
      rw [skipped_some hfaulty (nextMagic_append hi more),
        List.drop_append_of_le_length (by omega)]
      exact hkept
    | none =>
      -- The three bytes kept are the only ones a new magic can start at.
      apply decodes_skip (q := buffer.length - 3) hlong hfaulty (by omega)
      · intro i hi1 hi2
        rw [field_append_left more (by omega)]
        exact nextMagic_eq_none.mp hi i hi1 (by omega)
      · rw [skipped, if_neg hmagic, hi] at hkept
        rwa [List.drop_append_of_le_length (by omega)]

variable (degrees metres)

theorem decodeFrames_resumable :
    Resumable (decodeFrames degrees metres) (Decodes degrees metres) where
  start := .short (by simp)
  total := decodes_total degrees metres
  computes h := decodeFramesLoop_eq h (Nat.lt_succ_self _)
  resumes h hmore := decodes_append h hmore

/-- The receive loop of a session reports what the calls of `_decode_frames` return on its
chunks. -/
theorem sessionLoop_reports {buf rest : Bytes} {turns : List Turn}
    (hchunk : ∀ turn ∈ turns, turn.chunk ≠ []) {reports : List (List (List (δ × μ × UInt8)))}
    (h : readChunks (decodeFrames degrees metres) buf (turns.map Turn.chunk) =
      some (reports, rest)) (clients : List Client) :
    ∃ clients', sessionLoop degrees metres clients buf turns = some (clients', reports) := by
  induction turns generalizing buf clients reports with
  | nil =>
    obtain ⟨rfl, rfl⟩ := Prod.mk.inj (Option.some.inj h)
    exact ⟨clients, rfl⟩
  | cons turn turns ih =>
    obtain ⟨hne, hchunks⟩ := List.forall_mem_cons.mp hchunk
    rw [List.map_cons, readChunks, Option.bind_eq_bind, Option.bind_eq_some_iff] at h
    obtain ⟨⟨frames, buf'⟩, hdecode, h⟩ := h
    simp only [Option.bind_eq_bind, Option.bind_eq_some_iff] at h
    obtain ⟨⟨reports', rest'⟩, hrest, h⟩ := h
    obtain ⟨rfl, rfl⟩ := Prod.mk.inj (Option.some.inj h)
    obtain ⟨clients', hloop⟩ := ih hchunks hrest (broadcast turn.fails
      (clients ++ turn.arrivals.map fun socket => ⟨socket, []⟩) turn.chunk)
    have hlength : turn.chunk.length ≠ 0 := mt List.length_eq_zero_iff.mp hne
    refine ⟨clients', ?_⟩
    rw [sessionLoop]
    simp only [hlength, ↓reduceIte, hdecode, Option.bind_eq_bind, Option.bind_some, hloop,
      Option.pure_def]

/-- `_decode_frames` ends on every buffer, and neither calling it on the chunks of a stream, cut
in any way, nor a session that receives these chunks makes a difference to one call on the whole
stream. -/
theorem decode_frames_split_independent :
    (∀ buffer, ∃ frames rest, ∀ rounds, buffer.length < rounds →
      decodeFramesLoop degrees metres rounds buffer = some (frames, rest)) ∧
    (∀ chunks, ∃ reports rest frames kept,
      readChunks (decodeFrames degrees metres) [] chunks = some (reports, rest) ∧
      decodeFrames degrees metres chunks.flatten = some (frames, kept) ∧
      reports.flatten = frames) ∧
    ∀ clients (turns : List Turn), (∀ turn ∈ turns, turn.chunk ≠ []) →
      ∃ clients' reports frames kept,
        runSession degrees metres clients turns = some (clients', reports) ∧
        decodeFrames degrees metres (turns.map Turn.chunk).flatten = some (frames, kept) ∧
        reports.flatten = frames := by
  have hreader := decodeFrames_resumable degrees metres
  refine ⟨?_, hreader.readChunks_flatten, ?_⟩
  · intro buffer
    obtain ⟨frames, rest, h⟩ := decodes_total degrees metres buffer
    exact ⟨frames, rest, fun rounds hr => decodeFramesLoop_eq h hr⟩
  · intro clients turns hchunk
    obtain ⟨reports, rest, frames, kept, hreports, hframes, hsame⟩ :=
      hreader.readChunks_flatten (turns.map Turn.chunk)
    obtain ⟨clients', hsession⟩ := sessionLoop_reports degrees metres hchunk hreports clients
    exact ⟨clients', reports, frames, kept, hsession, hframes, hsame⟩

end Decoder

end AebNode.AngleMonitor
