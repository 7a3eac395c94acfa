import AebNode.DecoderAgreement

/-! What `decode_all` of the viewer leaves in the buffer. The loop ends on the first attempt
without a frame, and an attempt that skips a faulty header is one of these, even where a
complete packet follows. -/
namespace AebNode.LidarViewer
open LittleEndian Protocol Reader

/-- Complete packets at the start of a buffer, and what follows them. -/
inductive Leads : Bytes → Bytes → Prop
  | refl (buffer : Bytes) : Leads buffer buffer
  | packet {buffer tail : Bytes} (ha : Accepts buffer)
      (h : Leads (buffer.drop (packetSize buffer)) tail) : Leads buffer tail

theorem leads_end (buffer : Bytes) : ∃ tail, Leads buffer tail ∧ ¬ Accepts tail := by
  induction h : buffer.length using Nat.strong_induction_on generalizing buffer with
  | h n ih =>
    subst h
    by_cases ha : Accepts buffer
    · have hge := packetSize_ge_header ha.1
      have hfits := ha.2
      obtain ⟨tail, hleads, hstop⟩ :=
        ih _ (by rw [List.length_drop]; omega) (buffer.drop (packetSize buffer)) rfl
      exact ⟨tail, .packet ha hleads, hstop⟩
    · exact ⟨buffer, .refl buffer, ha⟩

/-- The attempt behind the last packet either waits for more bytes or skips a faulty header. -/
def leftBehind (tail : Bytes) : Bytes :=
  if tail.length < 32 ∨ LooseHeader tail then tail else resynced tail

theorem resynced_length {buffer : Bytes} (h : 32 ≤ buffer.length) :
    (resynced buffer).length < buffer.length := by
  unfold resynced
  cases hi : nextMagic buffer with
  | some i =>
    have hge := (nextMagic_eq_some.mp hi).1
    simp only [List.length_drop]
    omega
  | none =>
    rw [if_pos (by omega), List.length_drop]
    omega

section Decoder
variable {ρ μ : Type} (radians : FloatBits → ρ) (metres : FloatBits → μ)

theorem decodeAllLoop_leads {buffer tail : Bytes} (h : Leads buffer tail) (hstop : ¬ Accepts tail)
    {rounds : ℕ} (hr : buffer.length < rounds) :
    ∃ frames, decodeAllLoop radians metres rounds buffer = some (frames, leftBehind tail) := by
  obtain ⟨rounds, rfl⟩ : ∃ n, rounds = n + 1 := ⟨rounds - 1, by omega⟩
  induction h generalizing rounds with
  | refl buffer => exact ⟨[], decodeAllLoop_stop radians metres hstop rounds⟩
  | packet ha h ih =>
    rename_i buffer tail
    have hge := packetSize_ge_header ha.1
    have hfits := ha.2
    obtain ⟨rounds, rfl⟩ : ∃ n, rounds = n + 1 := ⟨rounds - 1, by omega⟩
    obtain ⟨frames, hrest⟩ := ih hstop rounds (by rw [List.length_drop]; omega)
    rw [decodeAllLoop_packet radians metres ha, hrest]
    exact ⟨_, rfl⟩

theorem decodeAll_leads {buffer tail : Bytes} (h : Leads buffer tail) (hstop : ¬ Accepts tail) :
    ∃ frames, decodeAll radians metres buffer = some (frames, leftBehind tail) :=
  decodeAllLoop_leads radians metres h hstop (Nat.lt_succ_self _)

/-- A call changes nothing exactly if it waits for the bytes of the first packet. -/
theorem decodeAll_idle_iff (buffer : Bytes) :
    decodeAll radians metres buffer = some ([], buffer) ↔
      buffer.length < 32 ∨ LooseHeader buffer ∧ ¬ Accepts buffer := by
  by_cases ha : Accepts buffer
  · have hcomplete := ha.1.complete
    refine iff_of_false ?_ (by simp [ha, hcomplete])
    rw [decodeAll, decodeAllLoop_packet radians metres ha, Option.map_eq_some_iff]
    rintro ⟨r, -, hr⟩
    cases (Prod.mk.inj hr).1
  · rw [decodeAll, decodeAllLoop_stop radians metres ha]
    simp only [Option.some.injEq, Prod.mk.injEq, true_and, ha, not_false_iff, and_true]
    constructor
    · intro hsame
      by_contra hfault
      rw [if_neg hfault] at hsame
      have hlt := resynced_length (not_lt.mp (not_or.mp hfault).1)
      rw [hsame] at hlt
      omega
    · exact fun hwait => if_pos hwait

/-- After one call of `decode_all` a second one returns nothing and leaves the buffer alone. -/
def Drains (buffer : Bytes) : Prop :=
  ∃ frames rest, decodeAll radians metres buffer = some (frames, rest) ∧
    decodeAll radians metres rest = some ([], rest)

/-- Where a faulty header comes behind the packets at the start of the buffer, the header at the
next magic value is not complete yet, or it is that of a packet which is not complete yet. -/
def NothingBehindFault (buffer : Bytes) : Prop :=
  ∀ tail, Leads buffer tail → 32 ≤ tail.length → ¬ LooseHeader tail →
    ∀ i, nextMagic tail = some i → (tail.drop i).length < 32 ∨
      LooseHeader (tail.drop i) ∧ ¬ Accepts (tail.drop i)

/-- `decode_all` returns every complete frame exactly if no faulty header is followed, at the
next magic value, by a complete packet or by another faulty header. -/
theorem decode_all_drains_iff (buffer : Bytes) :
    Drains radians metres buffer ↔ NothingBehindFault buffer := by
  constructor
  · rintro ⟨frames, rest, hfirst, hsecond⟩ tail hleads hlen hfault i hi
    obtain ⟨frames', hcall⟩ := decodeAll_leads radians metres hleads fun ha => hfault ha.1
    obtain ⟨-, rfl⟩ := Prod.mk.inj (Option.some.inj (hfirst.symm.trans hcall))
    have hskip : leftBehind tail = tail.drop i := by
      rw [leftBehind, if_neg (not_or.mpr ⟨not_lt.mpr hlen, hfault⟩), resynced, hi]
    rw [hskip] at hsecond
    exact (decodeAll_idle_iff radians metres _).mp hsecond
  · intro hbehind
    obtain ⟨tail, hleads, hstop⟩ := leads_end buffer
    obtain ⟨frames, hcall⟩ := decodeAll_leads radians metres hleads hstop
    refine ⟨frames, leftBehind tail, hcall, (decodeAll_idle_iff radians metres _).mpr ?_⟩
    rw [leftBehind]
    split_ifs with hwait
    · exact hwait.imp_right fun hloose => ⟨hloose, hstop⟩
    · obtain ⟨hlen, hfault⟩ := not_or.mp hwait
      rw [resynced]
      cases hi : nextMagic tail with
      | some i => exact hbehind tail hleads (not_lt.mp hlen) hfault i hi
      | none =>
        left
        rw [if_pos (by omega), List.length_drop]
        omega

end Decoder

/-- One stray byte in front of a packet: the first call skips it and returns nothing, and the
second returns the frame that was complete in the buffer all along. -/
theorem stray_byte_delays_frame :
    decodeAll id id (0 :: plainPacket) = some ([], plainPacket) ∧
      decodeAll id id plainPacket = some ([[(0x42B40000, 0x447A0000)]], []) ∧
      ¬ Drains id id (0 :: plainPacket) := by
  have hfirst : decodeAll id id (0 :: plainPacket) = some ([], plainPacket) := by decide +kernel
  have hsecond : decodeAll id id plainPacket =
      some ([[(0x42B40000, 0x447A0000)]], []) := by decide +kernel
  refine ⟨hfirst, hsecond, ?_⟩
  rintro ⟨frames, rest, hcall, hidle⟩
  obtain ⟨rfl, rfl⟩ := Prod.mk.inj (Option.some.inj (hcall.symm.trans hfirst))
  rw [hsecond] at hidle
  cases (Prod.mk.inj (Option.some.inj hidle)).1

end AebNode.LidarViewer
