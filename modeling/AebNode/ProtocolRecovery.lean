import AebNode.ProtocolStream

/-! The recovering reader, which answers every fatal status with a resynchronisation. What it
emits depends on the bytes alone, not on how they were split into reads. -/
namespace AebNode.Protocol
open ChunkedReading LittleEndian

/-- The recovering drain loop; `none` if `rounds` calls were not enough. -/
def recoverLoop : ℕ → Bytes → Frame → Option (List Frame × Bytes)
  | 0, _, _ => none
  | rounds + 1, buffer, out => do
    let (status, out, buffer) ← decode buffer out
    match status with
    | .ok => do
      let (frames, buffer) ← recoverLoop rounds buffer out
      return (out :: frames, buffer)
    | .needMoreData => return ([], buffer)
    | _ => do
      let (found, buffer) ← resynchronise buffer
      if found then recoverLoop rounds buffer out else return ([], buffer)

def recover (buffer : Bytes) : Option (List Frame × Bytes) :=
  recoverLoop (buffer.length + 1) buffer {}

/-- The first offset past the first byte at which a magic value is buffered. -/
def nextMagic (buffer : Bytes) : Option ℕ :=
  (List.range' 1 (buffer.length - 4)).find? fun i => field buffer i 4 == kMagic

/-- What the recovering reader emits on a buffer and what it keeps, as a big-step relation. -/
inductive Recovers : Bytes → List Frame → Bytes → Prop
  | short {buffer} (h : buffer.length < 32) : Recovers buffer [] buffer
  | incomplete {buffer} (hv : ValidHeader buffer) (h : buffer.length < packetSize buffer) :
      Recovers buffer [] buffer
  | packet {buffer frames rest} (hv : ValidHeader buffer)
      (h : packetSize buffer ≤ buffer.length)
      (tail : Recovers (buffer.drop (packetSize buffer)) frames rest) :
      Recovers buffer (frameOf buffer :: frames) rest
  | resync {buffer frames rest i} (h : 32 ≤ buffer.length) (hv : ¬ ValidHeader buffer)
      (hi : nextMagic buffer = some i) (tail : Recovers (buffer.drop i) frames rest) :
      Recovers buffer frames rest
  | lost {buffer} (h : 32 ≤ buffer.length) (hv : ¬ ValidHeader buffer)
      (hi : nextMagic buffer = none) : Recovers buffer [] (buffer.drop (buffer.length - 3))

theorem nextMagic_eq_some {buffer : Bytes} {i : ℕ} :
    nextMagic buffer = some i ↔ 1 ≤ i ∧ i + 4 ≤ buffer.length ∧
      field buffer i 4 = kMagic ∧ ∀ j, 1 ≤ j → j < i → field buffer j 4 ≠ kMagic := by
  simp only [nextMagic, List.find?_range'_eq_some, beq_iff_eq, List.mem_range'_1,
    Bool.not_eq_true', beq_eq_false_iff_ne]
  constructor
  · rintro ⟨hmagic, ⟨hge, hlt⟩, hfirst⟩
    exact ⟨hge, by omega, hmagic, hfirst⟩
  · rintro ⟨hge, hlt, hmagic, hfirst⟩
    exact ⟨hmagic, ⟨hge, by omega⟩, hfirst⟩

theorem nextMagic_eq_none {buffer : Bytes} :
    nextMagic buffer = none ↔
      ∀ i, 1 ≤ i → i < 1 + (buffer.length - 4) → field buffer i 4 ≠ kMagic := by
  simp only [nextMagic, List.find?_range'_eq_none, Bool.not_eq_true', beq_eq_false_iff_ne]

theorem findM?_magic {buffer : Bytes} {read : ℕ → Option ℕ} {offsets : List ℕ}
    (h : ∀ i ∈ offsets, read i = some (field buffer i 4)) :
    (offsets.findM? fun i => do return (← read i) == kMagic) =
      some (offsets.find? fun i => field buffer i 4 == kMagic) := by
  induction offsets with
  | nil => rfl
  | cons i offsets ih =>
    have hi := h i (List.mem_cons_self ..)
    have hrest := ih fun j hj => h j (List.mem_cons_of_mem i hj)
    rw [List.findM?, hi, List.find?_cons]
    cases hm : field buffer i 4 == kMagic with
    | true => simp [hm]
    | false =>
      simp only [Option.bind_eq_bind, Option.bind_some, Option.pure_def, hm]
      exact hrest

theorem resynchronise_eq {buffer : Bytes} (h : 4 ≤ buffer.length) :
    resynchronise buffer = some (match nextMagic buffer with
      | some i => (true, buffer.drop i)
      | none => (false, buffer.drop (buffer.length - 3))) := by
  have hread : ∀ i ∈ List.range' 1 (buffer.length - 4),
      getUint 4 buffer i = some (field buffer i 4) := by
    intro i hi
    have hlt := (List.mem_range'_1.mp hi).2
    exact getUint_eq (by omega)
  unfold resynchronise
  rw [if_neg (by omega), findM?_magic hread]
  simp only [Option.bind_eq_bind, Option.bind_some, Option.pure_def]
  rw [← nextMagic]
  cases nextMagic buffer <;> rfl

theorem recovers_total (buffer : Bytes) : ∃ frames rest, Recovers buffer frames rest := by
  induction h : buffer.length using Nat.strong_induction_on generalizing buffer with
  | h n ih =>
    subst h
    by_cases hlen : buffer.length < 32
    · exact ⟨[], buffer, .short hlen⟩
    by_cases hv : ValidHeader buffer
    · by_cases hp : buffer.length < packetSize buffer
      · exact ⟨[], buffer, .incomplete hv hp⟩
      · have hge := packetSize_ge hv
        obtain ⟨frames, rest, htail⟩ :=
          ih _ (by rw [List.length_drop]; omega) (buffer.drop (packetSize buffer)) rfl
        exact ⟨_, rest, .packet hv (by omega) htail⟩
    · cases hi : nextMagic buffer with
      | none => exact ⟨[], _, .lost (by omega) hv hi⟩
      | some i =>
        obtain ⟨hge, hle, -, -⟩ := nextMagic_eq_some.mp hi
        obtain ⟨frames, rest, htail⟩ :=
          ih _ (by rw [List.length_drop]; omega) (buffer.drop i) rfl
        exact ⟨frames, rest, .resync (by omega) hv hi htail⟩

theorem recoverLoop_fault {buffer : Bytes} (h : 32 ≤ buffer.length) (hv : ¬ ValidHeader buffer)
    (rounds : ℕ) (out : Frame) :
    recoverLoop (rounds + 1) buffer out = match nextMagic buffer with
      | some i => recoverLoop rounds (buffer.drop i) out
      | none => some ([], buffer.drop (buffer.length - 3)) := by
  cases hf : headerFault buffer with
  | none => exact absurd ((headerFault_eq_none_iff h).mp hf) hv
  | some status =>
    obtain ⟨hok, hmore⟩ := headerFault_ne hf
    have hscan := resynchronise_eq (show 4 ≤ buffer.length by omega)
    rw [recoverLoop, decode_fault h hf out]
    simp only [Option.bind_eq_bind, Option.bind_some, hscan]
    cases status <;> first | contradiction | (cases nextMagic buffer <;> rfl)

/-- The loop computes the relation as soon as it may take more rounds than bytes are
buffered. -/
theorem recoverLoop_eq {buffer rest : Bytes} {frames : List Frame}
    (h : Recovers buffer frames rest) {rounds : ℕ} (hr : buffer.length < rounds) (out : Frame) :
    recoverLoop rounds buffer out = some (frames, rest) := by
  obtain ⟨rounds, rfl⟩ : ∃ n, rounds = n + 1 := ⟨rounds - 1, by omega⟩
  induction h generalizing rounds out with
  | short h => rw [recoverLoop, decode_short h]; rfl
  | incomplete hv h => rw [recoverLoop, decode_incomplete hv h]; rfl
  | packet hv h tail ih =>
    rename_i buffer frames rest
    have hge := packetSize_ge hv
    obtain ⟨rounds, rfl⟩ : ∃ n, rounds = n + 1 := ⟨rounds - 1, by omega⟩
    have htail := ih (frameOf buffer) rounds (by rw [List.length_drop]; omega)
    rw [recoverLoop, decode_packet hv h]
    simp [htail]
  | resync h hv hi tail ih =>
    have hpos := (nextMagic_eq_some.mp hi).1
    obtain ⟨rounds, rfl⟩ : ∃ n, rounds = n + 1 := ⟨rounds - 1, by omega⟩
    rw [recoverLoop_fault h hv, hi]
    exact ih out rounds (by rw [List.length_drop]; omega)
  | lost h hv hi => rw [recoverLoop_fault h hv, hi]

theorem recovers_rest_length {buffer rest : Bytes} {frames : List Frame}
    (h : Recovers buffer frames rest) : rest.length < 1024 + 65536 * 256 + 4 := by
  induction h with
  | short h => omega
  | incomplete hv h => exact h.trans_le (packetSize_lt hv)
  | packet _ _ _ ih => exact ih
  | resync _ _ _ _ ih => exact ih
  | lost h => rw [List.length_drop]; omega

/-! What more bytes at the end change about the head of a buffer: nothing. -/

theorem validHeader_append {buffer : Bytes} (h : 32 ≤ buffer.length) (more : Bytes) :
    ValidHeader (buffer ++ more) ↔ ValidHeader buffer := by
  have hfield : ∀ {offset n : ℕ}, offset + n ≤ 32 →
      field (buffer ++ more) offset n = field buffer offset n :=
    fun ho => field_append_left more (by omega)
  have hfault : headerFault (buffer ++ more) = headerFault buffer := by
    simp only [headerFault, headerSizeOf, pointStrideOf, flagsOf, pointCountOf,
      hfield (show 0 + 4 ≤ 32 by norm_num), hfield (show 4 + 2 ≤ 32 by norm_num),
      hfield (show 6 + 2 ≤ 32 by norm_num), hfield (show 8 + 4 ≤ 32 by norm_num),
      hfield (show 24 + 4 ≤ 32 by norm_num), hfield (show 28 + 2 ≤ 32 by norm_num)]
    rfl
  rw [← headerFault_eq_none_iff h, ← hfault, headerFault_eq_none_iff]
  rw [List.length_append]
  omega

theorem packetSize_append {buffer : Bytes} (h : 32 ≤ buffer.length) (more : Bytes) :
    packetSize (buffer ++ more) = packetSize buffer := by
  have hfield : ∀ {offset n : ℕ}, offset + n ≤ 32 →
      field (buffer ++ more) offset n = field buffer offset n :=
    fun ho => field_append_left more (by omega)
  simp only [packetSize, headerSizeOf, pointStrideOf, flagsOf, pointCountOf,
    hfield (show 6 + 2 ≤ 32 by norm_num), hfield (show 8 + 4 ≤ 32 by norm_num),
    hfield (show 24 + 4 ≤ 32 by norm_num), hfield (show 28 + 2 ≤ 32 by norm_num)]
  rfl

/-- The frame of a complete packet does not depend on what follows it. -/
theorem frameOf_append {buffer : Bytes} (h : 32 ≤ buffer.length)
    (hs : 10 ≤ pointStrideOf buffer) (hfits : packetSize buffer ≤ buffer.length)
    (more : Bytes) : frameOf (buffer ++ more) = frameOf buffer := by
  have hfield : ∀ {offset n : ℕ}, offset + n ≤ buffer.length →
      field (buffer ++ more) offset n = field buffer offset n := field_append_left more
  have hpoint : ∀ i ∈ List.range (pointCountOf buffer),
      pointAt (buffer ++ more) i = pointAt buffer i := by
    intro i hi
    have hnext := Nat.mul_le_mul_right (pointStrideOf buffer)
      (Nat.succ_le_of_lt (List.mem_range.mp hi))
    rw [Nat.succ_mul] at hnext
    rw [packetSize] at hfits
    have hinside : headerSizeOf buffer + i * pointStrideOf buffer + 10 ≤ buffer.length := by omega
    have hsize : headerSizeOf (buffer ++ more) = headerSizeOf buffer := hfield (by omega)
    have hstride : pointStrideOf (buffer ++ more) = pointStrideOf buffer := hfield (by omega)
    simp only [pointAt, recordAt, hsize, hstride]
    rw [hfield (by omega), hfield (by omega), hfield (by omega)]
  have hcount : pointCountOf (buffer ++ more) = pointCountOf buffer := hfield (by omega)
  rw [frameOf, frameOf, hfield (by omega), hfield (by omega), hcount, List.map_congr_left hpoint]

theorem nextMagic_append {buffer : Bytes} {i : ℕ} (h : nextMagic buffer = some i)
    (more : Bytes) : nextMagic (buffer ++ more) = some i := by
  obtain ⟨hge, hle, hmagic, hfirst⟩ := nextMagic_eq_some.mp h
  have hlen : (buffer ++ more).length = buffer.length + more.length := List.length_append
  refine nextMagic_eq_some.mpr ⟨hge, by omega, ?_, ?_⟩
  · rw [field_append_left more hle, hmagic]
  · intro j hj hji
    rw [field_append_left more (by omega)]
    exact hfirst j hj hji

/-! Bytes in front of the next magic value may be dropped. -/

theorem le_of_nextMagic {buffer : Bytes} {i q : ℕ} (h : nextMagic buffer = some i)
    (hclear : ∀ j, 1 ≤ j → j < q → field buffer j 4 ≠ kMagic) : q ≤ i := by
  obtain ⟨hge, -, hmagic, -⟩ := nextMagic_eq_some.mp h
  by_contra hlt
  exact hclear i hge (by omega) hmagic

theorem nextMagic_drop {buffer : Bytes} {i q : ℕ} (h : nextMagic buffer = some i) (hq : 1 ≤ q)
    (hqi : q < i) :
    field (buffer.drop q) 0 4 ≠ kMagic ∧ nextMagic (buffer.drop q) = some (i - q) := by
  obtain ⟨-, hle, hmagic, hfirst⟩ := nextMagic_eq_some.mp h
  have hlen : (buffer.drop q).length = buffer.length - q := List.length_drop
  refine ⟨?_, nextMagic_eq_some.mpr ⟨by omega, by omega, ?_, ?_⟩⟩
  · rw [field_drop, Nat.add_zero]
    exact hfirst q hq hqi
  · rw [field_drop, Nat.add_sub_cancel' hqi.le, hmagic]
  · intro j hj hji
    rw [field_drop]
    exact hfirst (q + j) (by omega) (by omega)

theorem nextMagic_drop_none {buffer : Bytes} {q : ℕ} (h : nextMagic buffer = none) (hq : 1 ≤ q)
    (hlen : 4 ≤ (buffer.drop q).length) :
    field (buffer.drop q) 0 4 ≠ kMagic ∧ nextMagic (buffer.drop q) = none := by
  have hnone := nextMagic_eq_none.mp h
  rw [List.length_drop] at hlen
  refine ⟨?_, nextMagic_eq_none.mpr fun j hj hle => ?_⟩
  · rw [field_drop, Nat.add_zero]
    exact hnone q hq (by omega)
  · rw [List.length_drop] at hle
    rw [field_drop]
    exact hnone (q + j) (by omega) (by omega)

/-- Behind a faulty header, bytes that start no magic value may be skipped at once: reading
from the end of any such stretch emits the same frames. -/
theorem recovers_skip {buffer rest : Bytes} {frames : List Frame} {q : ℕ}
    (h : 32 ≤ buffer.length) (hv : ¬ ValidHeader buffer) (hq : 1 ≤ q)
    (hclear : ∀ i, 1 ≤ i → i < q → field buffer i 4 ≠ kMagic)
    (hrest : Recovers (buffer.drop q) frames rest) : ∃ kept, Recovers buffer frames kept := by
  have hlen : (buffer.drop q).length = buffer.length - q := List.length_drop
  cases hi : nextMagic buffer with
  | some i =>
    rcases (le_of_nextMagic hi hclear).eq_or_lt with rfl | hqi
    · exact ⟨rest, .resync h hv hi hrest⟩
    obtain ⟨hzero, hsame⟩ := nextMagic_drop hi hq hqi
    cases hrest with
    | short hs =>
      exact ⟨_, .resync h hv hi (.short (by rw [List.length_drop]; omega))⟩
    | incomplete hv' => exact absurd hv'.magic hzero
    | packet hv' => exact absurd hv'.magic hzero
    | resync _ _ hj tail =>
      obtain rfl := Option.some.inj (hsame.symm.trans hj)
      rw [List.drop_drop, Nat.add_sub_cancel' hqi.le] at tail
      exact ⟨rest, .resync h hv hi tail⟩
    | lost _ _ hj => cases hsame.symm.trans hj
  | none =>
    have hempty : frames = [] := by
      cases hrest with
      | short => rfl
      | incomplete => rfl
      | packet hv' =>
        have hcomplete := hv'.complete
        exact absurd hv'.magic (nextMagic_drop_none hi hq (by omega)).1
      | resync hs _ hj => cases (nextMagic_drop_none hi hq (by omega)).2.symm.trans hj
      | lost => rfl
    subst hempty
    exact ⟨_, .lost h hv hi⟩

/-- Reading what was kept, followed by more bytes, continues the reading of the whole. -/
theorem recovers_append {buffer rest : Bytes} {frames : List Frame}
    (h : Recovers buffer frames rest) {more kept : Bytes} {next : List Frame}
    (hmore : Recovers (rest ++ more) next kept) :
    ∃ kept', Recovers (buffer ++ more) (frames ++ next) kept' := by
  induction h with
  | short => exact ⟨kept, hmore⟩
  | incomplete => exact ⟨kept, hmore⟩
  | packet hv h tail ih =>
    rename_i buffer frames rest
    obtain ⟨kept', hkept⟩ := ih hmore
    have hsize := packetSize_append hv.complete more
    have hframe := frameOf_append hv.complete hv.pointStride_ge h more
    refine ⟨kept', ?_⟩
    rw [List.cons_append, ← hframe]
    refine .packet ((validHeader_append hv.complete more).mpr hv) ?_ ?_
    · rw [hsize, List.length_append]
      omega
    · rwa [hsize, List.drop_append_of_le_length h]
  | resync h hv hi tail ih =>
    rename_i buffer frames rest i
    obtain ⟨kept', hkept⟩ := ih hmore
    have hle := (nextMagic_eq_some.mp hi).2.1
    refine ⟨kept', .resync ?_ (mt (validHeader_append h more).mp hv) (nextMagic_append hi more) ?_⟩
    · rw [List.length_append]
      omega
    · rwa [List.drop_append_of_le_length (by omega)]
  | lost h hv hi =>
    rename_i buffer
    -- The three bytes kept are the only ones a new magic can start at.
    apply recovers_skip (q := buffer.length - 3) _ (mt (validHeader_append h more).mp hv)
      (by omega)
    · intro i hi1 hi2
      rw [field_append_left more (by omega)]
      exact nextMagic_eq_none.mp hi i hi1 (by omega)
    · rwa [List.drop_append_of_le_length (by omega)]
    · rw [List.length_append]
      omega

theorem recover_resumable : Resumable recover Recovers where
  start := .short (by simp)
  total := recovers_total
  computes h := recoverLoop_eq h (Nat.lt_succ_self _) {}
  resumes h hmore := recovers_append h hmore

/-- Recovery is independent of the transport: two splittings of the same bytes, whatever they
are, make the recovering reader emit the same frames. Every drain ends, within as many calls
as bytes are buffered plus one, and leaves less than one packet of maximal size. -/
theorem recovery_split_independent :
    (∀ chunks chunks' : List Bytes, chunks.flatten = chunks'.flatten →
      ∃ reports rest reports' rest', feedAll recover [] chunks = some (reports, rest) ∧
        feedAll recover [] chunks' = some (reports', rest') ∧
        reports.flatten = reports'.flatten) ∧
    ∀ (buffer : Bytes) (out : Frame), ∃ frames rest,
      (∀ rounds, buffer.length < rounds →
        recoverLoop rounds buffer out = some (frames, rest)) ∧
      rest.length < 1024 + 65536 * 256 + 4 := by
  constructor
  · intro chunks chunks' h
    simp only [feedAll_eq_readChunks]
    exact recover_resumable.readChunks_independent h
  · intro buffer out
    obtain ⟨frames, rest, hbuffer⟩ := recovers_total buffer
    exact ⟨frames, rest, fun rounds hr => recoverLoop_eq hbuffer hr out,
      recovers_rest_length hbuffer⟩

end AebNode.Protocol
