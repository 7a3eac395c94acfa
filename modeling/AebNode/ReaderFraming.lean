import AebNode.ReaderPackets

/-! Where in a stream the Python readers look for a packet. The offsets depend on the bytes
alone: a reader that holds less of the stream holds a window that starts at one of them, or on
the way to the next. -/
namespace AebNode.Reader
open LittleEndian Protocol

/-- The offsets of a stream at which the framing comes to a packet: the end of the packet
before, or the first magic value behind a faulty header. -/
inductive Reached (stream : Bytes) : ℕ → Prop
  | start : Reached stream 0
  | packet {o : ℕ} (h : Reached stream o) (ha : Accepts (stream.drop o)) :
      Reached stream (o + packetSize (stream.drop o))
  | skip {o q : ℕ} (h : Reached stream o) (hlen : o + 32 ≤ stream.length)
      (hv : ¬ LooseHeader (stream.drop o)) (hlt : o < q) (hq : field stream q 4 = kMagic)
      (hclear : ∀ j, o < j → j < q → field stream j 4 ≠ kMagic) : Reached stream q

/-- The offsets at which a reader's buffer may start: those reached, and those on the way from
a faulty header to the next magic value. -/
def Held (stream : Bytes) (q : ℕ) : Prop :=
  Reached stream q ∨ ∃ o, Reached stream o ∧ o + 32 ≤ stream.length ∧
    ¬ LooseHeader (stream.drop o) ∧ o < q ∧ ∀ j, o < j → j < q → field stream j 4 ≠ kMagic

theorem Held.reached {stream : Bytes} {q : ℕ} (h : Held stream q)
    (hq : field stream q 4 = kMagic) : Reached stream q := by
  rcases h with h | ⟨o, ho, hlen, hv, hlt, hclear⟩
  · exact h
  · exact ho.skip hlen hv hlt hq hclear

theorem Held.skip {stream : Bytes} {q q' : ℕ} (h : Held stream q) (hlen : q + 32 ≤ stream.length)
    (hv : ¬ LooseHeader (stream.drop q)) (hlt : q < q')
    (hclear : ∀ j, q < j → j < q' → field stream j 4 ≠ kMagic) : Held stream q' := by
  by_cases hq : field stream q 4 = kMagic
  · exact Or.inr ⟨q, h.reached hq, hlen, hv, hlt, hclear⟩
  rcases h with h | ⟨o, ho, holen, hov, holt, hoclear⟩
  · exact Or.inr ⟨q, h, hlen, hv, hlt, hclear⟩
  · refine Or.inr ⟨o, ho, holen, hov, by omega, ?_⟩
    intro j hoj hjq
    rcases Nat.lt_trichotomy j q with hjq' | rfl | hqj
    · exact hoclear j hoj hjq'
    · exact hq
    · exact hclear j hqj hjq

theorem looseHeader_append {buffer : Bytes} (h : 32 ≤ buffer.length) (more : Bytes) :
    LooseHeader (buffer ++ more) ↔ LooseHeader buffer := by
  have hfield : ∀ {offset n : ℕ}, offset + n ≤ 32 →
      field (buffer ++ more) offset n = field buffer offset n :=
    fun ho => field_append_left more (by omega)
  have hlen : 32 ≤ (buffer ++ more).length := by rw [List.length_append]; omega
  simp only [looseHeader_iff, headerSizeOf, pointStrideOf, pointCountOf, hlen, h,
    hfield (show 0 + 4 ≤ 32 by norm_num), hfield (show 4 + 2 ≤ 32 by norm_num),
    hfield (show 6 + 2 ≤ 32 by norm_num), hfield (show 24 + 4 ≤ 32 by norm_num),
    hfield (show 28 + 2 ≤ 32 by norm_num)]

theorem accepts_append {buffer : Bytes} (h : Accepts buffer) (more : Bytes) :
    Accepts (buffer ++ more) := by
  refine ⟨(looseHeader_append h.1.complete more).mpr h.1, ?_⟩
  have hfits := h.2
  rw [packetSize_append h.1.complete, List.length_append]
  omega

/-- The points shown of the packet at the start of a buffer. -/
def shown (buffer : Bytes) : List Point := visiblePoints (frameOf buffer)

theorem shown_append {buffer : Bytes} (h : Accepts buffer) (more : Bytes) :
    shown (buffer ++ more) = shown buffer := by
  rw [shown, frameOf_append h.1.complete h.1.pointStride_ge h.2, shown]

/-- A header accepted anywhere in a stream stands at a magic value. -/
theorem LooseHeader.magic_drop {stream : Bytes} {q : ℕ} (h : LooseHeader (stream.drop q)) :
    field stream q 4 = kMagic := by
  have hmagic := h.magic
  rwa [field_drop, Nat.add_zero] at hmagic

end AebNode.Reader
