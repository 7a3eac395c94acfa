import AebNode.ProtocolRecovery

/-! What a resynchronisation keeps of a stream that goes on. The next packet start may straddle
the end of the buffer; a buffer shorter than a magic value is given up whole. -/
namespace AebNode.Protocol
open LittleEndian

theorem resynchronise_short {buffer : Bytes} (h : buffer.length < 4) :
    resynchronise buffer = some (false, []) := by
  unfold resynchronise
  rw [if_pos h]
  rfl

theorem nextMagic_append_iff {buffer more : Bytes} {i : ℕ} (h : i + 4 ≤ buffer.length) :
    nextMagic (buffer ++ more) = some i ↔ nextMagic buffer = some i := by
  constructor
  · intro hi
    obtain ⟨hge, -, hmagic, hfirst⟩ := nextMagic_eq_some.mp hi
    refine nextMagic_eq_some.mpr ⟨hge, h, ?_, ?_⟩
    · rwa [field_append_left more h] at hmagic
    · intro j hj hji
      have hskipped := hfirst j hj hji
      rwa [field_append_left more (by omega)] at hskipped
  · exact fun hi => nextMagic_append hi more

/-- What a resynchronisation is to leave of the stream `buffer ++ more`, of which `more` is fed
afterwards: the next packet start, which is the first magic value past the first byte. -/
structure KeepsStart (buffer more : Bytes) (found : Bool) (kept : Bytes) : Prop where
  retained : ∀ i, nextMagic (buffer ++ more) = some i → i < buffer.length →
    ∃ k ≤ i, feed kept more = (buffer ++ more).drop k
  found_iff : found = true ↔ ∃ i, nextMagic (buffer ++ more) = some i ∧ i + 4 ≤ buffer.length
  front : ∀ i, nextMagic (buffer ++ more) = some i → i + 4 ≤ buffer.length →
    kept = buffer.drop i

/-- From a buffer of the size of a magic value on, the last three bytes at least are kept. -/
theorem keepsStart_long {buffer : Bytes} (h : 4 ≤ buffer.length) (more : Bytes) :
    ∃ found kept, resynchronise buffer = some (found, kept) ∧
      KeepsStart buffer more found kept := by
  rw [resynchronise_eq h]
  cases hi : nextMagic buffer with
  | some i =>
    have hle := (nextMagic_eq_some.mp hi).2.1
    have hstream := nextMagic_append hi more
    have honly : ∀ j, nextMagic (buffer ++ more) = some j → j = i := by
      intro j hj
      exact Option.some.inj (hj.symm.trans hstream)
    refine ⟨true, buffer.drop i, rfl, ?_, ?_, ?_⟩
    · intro j hj _
      obtain rfl := honly j hj
      refine ⟨j, le_rfl, ?_⟩
      rw [feed_eq, List.drop_append_of_le_length (by omega)]
    · exact iff_of_true rfl ⟨i, hstream, hle⟩
    · intro j hj _
      rw [honly j hj]
  | none =>
    have hnone : ∀ j, nextMagic (buffer ++ more) = some j → ¬ j + 4 ≤ buffer.length := by
      intro j hj hle
      rw [(nextMagic_append_iff hle).mp hj] at hi
      cases hi
    refine ⟨false, buffer.drop (buffer.length - 3), rfl, ?_, ?_, ?_⟩
    · intro j hj hlt
      have hlate := hnone j hj
      refine ⟨buffer.length - 3, by omega, ?_⟩
      rw [feed_eq, List.drop_append_of_le_length (by omega)]
    · refine iff_of_false Bool.false_ne_true ?_
      rintro ⟨j, hj, hle⟩
      exact hnone j hj hle
    · exact fun j hj hle => absurd hle (hnone j hj)

/-- A resynchronisation keeps the next packet start exactly if the buffer has the size of a
magic value or no packet starts in it. -/
theorem resynchronise_keeps_start_iff (buffer more : Bytes) : ∃ found kept,
    resynchronise buffer = some (found, kept) ∧ (KeepsStart buffer more found kept ↔
      4 ≤ buffer.length ∨ ∀ i, nextMagic (buffer ++ more) = some i → buffer.length ≤ i) := by
  by_cases hlen : 4 ≤ buffer.length
  · obtain ⟨found, kept, hresync, hkeeps⟩ := keepsStart_long hlen more
    exact ⟨found, kept, hresync, iff_of_true hkeeps (Or.inl hlen)⟩
  · refine ⟨false, [], resynchronise_short (by omega), ?_⟩
    constructor
    · intro hkeeps
      refine Or.inr fun i hi => ?_
      by_contra hlt
      obtain ⟨k, hk, hfeed⟩ := hkeeps.retained i hi (by omega)
      -- All that is left of the stream is what was fed.
      have hlength := congrArg List.length hfeed
      rw [feed_eq, List.nil_append, List.length_drop, List.length_append] at hlength
      omega
    · rintro (hlong | houtside)
      · exact absurd hlong hlen
      · refine ⟨?_, ?_, ?_⟩
        · exact fun i hi hlt => absurd (houtside i hi) (by omega)
        · refine iff_of_false Bool.false_ne_true ?_
          rintro ⟨i, -, hle⟩
          omega
        · exact fun i _ hle => absurd hle (by omega)

/-- A buffer of two bytes that ends in the first byte of a packet: the byte is given up, and the
decoder never sees the magic of that packet. -/
theorem short_buffer_loses_start : resynchronise [0, 0x31] = some (false, []) ∧
    nextMagic ([0, 0x31] ++ (encode {}).tail) = some 1 ∧
    ∀ found kept, resynchronise [0, 0x31] = some (found, kept) →
      ¬ KeepsStart [0, 0x31] (encode {}).tail found kept := by
  have hclear : resynchronise [0, 0x31] = some (false, []) := resynchronise_short (by simp)
  have hnext : nextMagic ([0, 0x31] ++ (encode {}).tail) = some 1 := by decide +kernel
  refine ⟨hclear, hnext, fun found kept hresync hkeeps => ?_⟩
  obtain ⟨rfl, rfl⟩ := Prod.mk.inj (Option.some.inj (hresync.symm.trans hclear))
  obtain ⟨k, hk, hfeed⟩ := hkeeps.retained 1 hnext (by simp)
  have hlost : k = 0 ∨ k = 1 := by omega
  rcases hlost with rfl | rfl <;> exact absurd hfeed (by decide +kernel)

end AebNode.Protocol
