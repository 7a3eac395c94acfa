import Mathlib

/-! Readers of a stream that arrives in chunks. A reader is called on what it has kept and the
next chunk, and returns the items it found together with what it keeps for the next call. What
it does on a buffer is described by a relation; if reading on from what was kept continues the
reading of the whole, the items do not depend on how the stream was cut. -/
namespace AebNode.ChunkedReading

variable {α β : Type*}

def readChunks (read : List α → Option (List β × List α)) :
    List α → List (List α) → Option (List (List β) × List α)
  | kept, [] => some ([], kept)
  | kept, chunk :: chunks => do
    let (items, kept) ← read (kept ++ chunk)
    let (reports, kept) ← readChunks read kept chunks
    return (items :: reports, kept)

/-- `Reads buffer items kept` describes a reader whose calls all end, and which can be stopped
and resumed at the end of any buffer. -/
structure Resumable (read : List α → Option (List β × List α))
    (Reads : List α → List β → List α → Prop) : Prop where
  start : Reads [] [] []
  total : ∀ buffer, ∃ items kept, Reads buffer items kept
  computes : ∀ {buffer items kept}, Reads buffer items kept → read buffer = some (items, kept)
  resumes : ∀ {buffer items kept more items' kept'}, Reads buffer items kept →
    Reads (kept ++ more) items' kept' → ∃ kept'', Reads (buffer ++ more) (items ++ items') kept''

namespace Resumable

variable {read : List α → Option (List β × List α)} {Reads : List α → List β → List α → Prop}

/-- Reading the rest of a stream chunk by chunk continues the reading of what was consumed. -/
theorem readChunks_continues (h : Resumable read Reads) {consumed kept : List α} {items : List β}
    (hread : Reads consumed items kept) (chunks : List (List α)) :
    ∃ reports rest kept', readChunks read kept chunks = some (reports, rest) ∧
      Reads (consumed ++ chunks.flatten) (items ++ reports.flatten) kept' := by
  induction chunks generalizing consumed kept items with
  | nil => exact ⟨[], kept, kept, rfl, by simpa using hread⟩
  | cons chunk chunks ih =>
    obtain ⟨next, kept', hnext⟩ := h.total (kept ++ chunk)
    obtain ⟨reports, rest, last, hreports, hlast⟩ := ih hnext
    rw [List.append_assoc, ← List.flatten_cons] at hlast
    obtain ⟨whole, hwhole⟩ := h.resumes hread hlast
    refine ⟨next :: reports, rest, whole, ?_, by rwa [List.flatten_cons]⟩
    rw [readChunks, h.computes hnext]
    simp [hreports]

theorem readChunks_flatten (h : Resumable read Reads) (chunks : List (List α)) :
    ∃ reports rest items kept, readChunks read [] chunks = some (reports, rest) ∧
      read chunks.flatten = some (items, kept) ∧ reports.flatten = items := by
  obtain ⟨reports, rest, kept, hreports, hread⟩ := h.readChunks_continues h.start chunks
  exact ⟨reports, rest, reports.flatten, kept, hreports, h.computes hread, rfl⟩

theorem readChunks_reads (h : Resumable read Reads) {chunks : List (List α)} {items : List β}
    {kept : List α} (hread : Reads chunks.flatten items kept) :
    ∃ reports rest, readChunks read [] chunks = some (reports, rest) ∧
      reports.flatten = items := by
  obtain ⟨reports, rest, items', kept', hreports, hwhole, rfl⟩ := h.readChunks_flatten chunks
  have hitems := hwhole.symm.trans (h.computes hread)
  exact ⟨reports, rest, hreports, (Prod.mk.inj (Option.some.inj hitems)).1⟩

theorem readChunks_independent (h : Resumable read Reads) {chunks chunks' : List (List α)}
    (hstream : chunks.flatten = chunks'.flatten) :
    ∃ reports rest reports' rest', readChunks read [] chunks = some (reports, rest) ∧
      readChunks read [] chunks' = some (reports', rest') ∧
      reports.flatten = reports'.flatten := by
  obtain ⟨reports, rest, items, kept, hreports, hread, rfl⟩ := h.readChunks_flatten chunks
  obtain ⟨reports', rest', items', kept', hreports', hread', rfl⟩ := h.readChunks_flatten chunks'
  rw [hstream, hread'] at hread
  refine ⟨reports, rest, reports', rest', hreports, hreports', ?_⟩
  exact (Prod.mk.inj (Option.some.inj hread)).1.symm

end Resumable

section Packets
variable {γ : Type*}

variable {read : List α → Option (List β × List α)} {encode : γ → List α} {view : γ → β}

/-- What is left of a stream behind its complete packets is less than the next of them. -/
def CutAt (encode : γ → List α) (packets : List γ) (rest : List α) (done : List γ)
    (kept : List α) : Prop :=
  ∃ left, packets = done ++ left ∧ kept ++ rest = left.flatMap encode ∧
    ∀ packet ∈ left.head?, kept.length < (encode packet).length

theorem CutAt.le {packets done done' : List γ} {rest kept kept' : List α}
    (h : CutAt encode packets rest done kept) (h' : CutAt encode packets rest done' kept') :
    done' <+: done := by
  obtain ⟨left, rfl, hkept, hhead⟩ := h
  obtain ⟨left', hsplit, hkept', -⟩ := h'
  rcases List.append_eq_append_iff.mp hsplit with ⟨more, rfl, rfl⟩ | ⟨more, rfl, rfl⟩
  · cases more with
    | nil => simp
    | cons packet more =>
      -- The longer cut would take a packet that is not complete.
      rw [List.flatMap_append, ← hkept', ← List.append_assoc, List.append_cancel_right_eq] at hkept
      have hlt := hhead packet rfl
      rw [hkept, List.flatMap_cons, List.length_append, List.length_append] at hlt
      omega
  · exact List.prefix_append _ _

theorem CutAt.unique {packets done done' : List γ} {rest kept kept' : List α}
    (h : CutAt encode packets rest done kept) (h' : CutAt encode packets rest done' kept') :
    done = done' ∧ kept = kept' := by
  have hdone : done = done' :=
    (h'.le h).eq_of_length (le_antisymm (h'.le h).length_le (h.le h').length_le)
  obtain ⟨left, rfl, hkept, -⟩ := h
  obtain ⟨left', hsplit, hkept', -⟩ := h'
  subst hdone
  obtain rfl := List.append_cancel_left hsplit
  exact ⟨rfl, List.append_cancel_right (hkept.trans hkept'.symm)⟩

theorem CutAt.whole {packets done : List γ} {kept : List α}
    (h : CutAt encode packets [] done kept) : done = packets ∧ kept = [] := by
  obtain ⟨left, rfl, hkept, hhead⟩ := h
  rw [List.append_nil] at hkept
  cases left with
  | nil => exact ⟨(List.append_nil done).symm, hkept⟩
  | cons packet left =>
    have hlt := hhead packet rfl
    rw [hkept, List.flatMap_cons, List.length_append] at hlt
    omega

/-- The first of the packets, as far as they are complete within a length. -/
def completeIn (encode : γ → List α) : List γ → ℕ → List γ
  | [], _ => []
  | packet :: packets, n =>
    if (encode packet).length ≤ n then
      packet :: completeIn encode packets (n - (encode packet).length)
    else []

theorem completeIn_mono (packets : List γ) {m n : ℕ} (h : m ≤ n) :
    completeIn encode packets m <+: completeIn encode packets n := by
  induction packets generalizing m n with
  | nil => exact List.prefix_rfl
  | cons packet packets ih =>
    rw [completeIn, completeIn]
    by_cases hm : (encode packet).length ≤ m
    · rw [if_pos hm, if_pos (hm.trans h)]
      exact (List.prefix_cons_inj packet).mpr (ih (Nat.sub_le_sub_right h _))
    · rw [if_neg hm]
      exact List.nil_prefix

theorem completeIn_short (packets : List γ) {n : ℕ}
    (h : ∀ packet ∈ packets.head?, n < (encode packet).length) :
    completeIn encode packets n = [] := by
  cases packets with
  | nil => rfl
  | cons packet packets => exact if_neg (not_le.mpr (h packet rfl))

theorem completeIn_append (done left : List γ) (n : ℕ) :
    completeIn encode (done ++ left) ((done.flatMap encode).length + n) =
      done ++ completeIn encode left n := by
  induction done with
  | nil => simp
  | cons packet done ih =>
    rw [List.cons_append, completeIn, List.flatMap_cons, List.length_append,
      if_pos (by omega), Nat.add_assoc, Nat.add_sub_cancel_left, ih, List.cons_append]

/-- A cut of a stream leaves behind what is complete in it. -/
theorem CutAt.eq_completeIn {packets done : List γ} {buffer rest kept : List α}
    (h : CutAt encode packets rest done kept)
    (hbuffer : buffer ++ rest = packets.flatMap encode) :
    done = completeIn encode packets buffer.length := by
  obtain ⟨left, rfl, hkept, hhead⟩ := h
  rw [List.flatMap_append, ← hkept, ← List.append_assoc, List.append_cancel_right_eq] at hbuffer
  rw [hbuffer, List.length_append, completeIn_append, completeIn_short left hhead, List.append_nil]

/-- A stream from an offset on: the rest of the packet there, and the packets behind it. -/
def joinAt (encode : γ → List α) : List γ → ℕ → List α × List γ
  | [], _ => ([], [])
  | packet :: packets, n =>
    if n = 0 then ([], packet :: packets)
    else if (encode packet).length ≤ n then joinAt encode packets (n - (encode packet).length)
    else ((encode packet).drop n, packets)

theorem drop_stream (packets : List γ) (n : ℕ) :
    (packets.flatMap encode).drop n =
      (joinAt encode packets n).1 ++ (joinAt encode packets n).2.flatMap encode := by
  induction packets generalizing n with
  | nil => simp [joinAt]
  | cons packet packets ih =>
    rw [joinAt, List.flatMap_cons]
    split_ifs with hzero hbehind
    · simp [hzero]
    · rw [List.drop_append, List.drop_eq_nil_of_le hbehind, List.nil_append, ih]
    · rw [List.drop_append_of_le_length (not_le.mp hbehind).le]

/-- Of a stream of packets cut off anywhere the reader shows the complete packets, and keeps less
than the next one. -/
def ReadsPackets (read : List α → Option (List β × List α)) (encode : γ → List α)
    (view : γ → β) : Prop :=
  ∀ ⦃packets : List γ⦄ ⦃buffer rest : List α⦄, buffer ++ rest = packets.flatMap encode →
    ∃ done kept, CutAt encode packets rest done kept ∧ read buffer = some (done.map view, kept)

/-- A loop that takes a complete packet off the buffer, and stops before an incomplete one. -/
theorem ReadsPackets.of_loop {loop : ℕ → List α → Option (List β × List α)}
    (hread : ∀ buffer, read buffer = loop (buffer.length + 1) buffer)
    (hne : ∀ packet, 0 < (encode packet).length)
    (hpacket : ∀ packet tail rounds, loop (rounds + 1) (encode packet ++ tail) =
      (loop rounds tail).map fun r => (view packet :: r.1, r.2))
    (hempty : ∀ rounds, loop (rounds + 1) [] = some ([], []))
    (hshort : ∀ packet {buffer rest tail : List α} rounds,
      buffer ++ rest = encode packet ++ tail → buffer.length < (encode packet).length →
      loop (rounds + 1) buffer = some ([], buffer)) :
    ReadsPackets read encode view := by
  have hloop : ∀ (packets : List γ) (buffer rest : List α) (rounds : ℕ),
      buffer ++ rest = packets.flatMap encode → buffer.length < rounds →
      ∃ done kept, CutAt encode packets rest done kept ∧
        loop rounds buffer = some (done.map view, kept) := by
    intro packets
    induction packets with
    | nil =>
      intro buffer rest rounds h hr
      obtain ⟨rfl, rfl⟩ := List.append_eq_nil_iff.mp h
      obtain ⟨rounds, rfl⟩ : ∃ n, rounds = n + 1 := ⟨rounds - 1, by omega⟩
      exact ⟨[], [], ⟨[], rfl, rfl, nofun⟩, hempty rounds⟩
    | cons packet packets ih =>
      intro buffer rest rounds h hr
      obtain ⟨rounds, rfl⟩ : ∃ n, rounds = n + 1 := ⟨rounds - 1, by omega⟩
      rw [List.flatMap_cons] at h
      by_cases hcut : buffer.length < (encode packet).length
      · refine ⟨[], buffer, ⟨packet :: packets, rfl, h, ?_⟩, hshort packet rounds h hcut⟩
        rintro _ ⟨⟩
        exact hcut
      · obtain ⟨tail, rfl⟩ : encode packet <+: buffer :=
          List.prefix_of_prefix_length_le (h ▸ List.prefix_append _ _)
            (List.prefix_append buffer rest) (not_lt.mp hcut)
        rw [List.append_assoc, List.append_cancel_left_eq] at h
        have hpos := hne packet
        rw [List.length_append] at hr
        obtain ⟨done, kept, ⟨left, rfl, hleft, hhead⟩, hrest⟩ :=
          ih tail rest rounds h (by omega)
        refine ⟨packet :: done, kept, ⟨left, rfl, hleft, hhead⟩, ?_⟩
        rw [hpacket, hrest]
        rfl
  intro packets buffer rest h
  obtain ⟨done, kept, hcut, hdone⟩ := hloop packets buffer rest _ h (Nat.lt_succ_self _)
  exact ⟨done, kept, hcut, (hread buffer).trans hdone⟩

theorem ReadsPackets.readChunks (h : ReadsPackets read encode view) {packets : List γ}
    {kept rest : List α} {chunks : List (List α)}
    (hstream : kept ++ chunks.flatten ++ rest = packets.flatMap encode)
    (hhead : ∀ packet ∈ packets.head?, kept.length < (encode packet).length) :
    ∃ done reports kept', CutAt encode packets rest done kept' ∧
      ChunkedReading.readChunks read kept chunks = some (reports, kept') ∧
      reports.flatten = done.map view := by
  induction chunks generalizing packets kept with
  | nil =>
    rw [List.flatten_nil, List.append_nil] at hstream
    exact ⟨[], [], kept, ⟨packets, rfl, hstream, hhead⟩, rfl, rfl⟩
  | cons chunk chunks ih =>
    rw [List.flatten_cons, ← List.append_assoc, List.append_assoc (kept ++ chunk)] at hstream
    obtain ⟨done, kept', ⟨left, rfl, hleft, hnext⟩, hread⟩ := h hstream
    rw [← List.append_assoc] at hleft
    obtain ⟨more, reports, kept'', ⟨left', rfl, hrest, hlast⟩, hreports, hshown⟩ := ih hleft hnext
    refine ⟨done ++ more, done.map view :: reports, kept'',
      ⟨left', (List.append_assoc _ _ _).symm, hrest, hlast⟩, ?_, ?_⟩
    · rw [ChunkedReading.readChunks, hread]
      simp [hreports]
    · rw [List.flatten_cons, hshown, List.map_append]

end Packets

end AebNode.ChunkedReading
