import AebNode.LidarViewer
import AebNode.ReaderFraming

/-! The viewer on a stream it receives in pieces. It emits only packets the framing comes to,
and a viewer that reads byte by byte emits every one of them. -/
namespace AebNode.LidarViewer
open LittleEndian Protocol Reader

section Framing
variable {ρ μ : Type} (radians : FloatBits → ρ) (metres : FloatBits → μ)

/-- The frame emitted for the packet at an offset of the stream. -/
def frameAt (stream : Bytes) (o : ℕ) : List (ρ × μ) :=
  (shown (stream.drop o)).map (scanPoint radians metres)

/-- The frame is the one of a packet that the framing comes to. -/
def Framed (stream : Bytes) (points : List (ρ × μ)) : Prop :=
  ∃ o, Reached stream o ∧ Accepts (stream.drop o) ∧ points = frameAt radians metres stream o

theorem tryDecodeOne_held {stream buffer later rest : Bytes} {q : ℕ}
    {frame : Option (List (ρ × μ))} (hheld : Held stream q)
    (hwindow : stream.drop q = buffer ++ later)
    (h : tryDecodeOne radians metres buffer = some (frame, rest)) :
    ∃ q', Held stream q' ∧ stream.drop q' = rest ++ later ∧
      ∀ points ∈ frame, Framed radians metres stream points := by
  have hdrop : ∀ i, i ≤ buffer.length → stream.drop (q + i) = buffer.drop i ++ later := by
    intro i hi
    rw [← List.drop_drop, hwindow, List.drop_append_of_le_length hi]
  rw [tryDecodeOne_eq] at h
  by_cases haccepts : Accepts buffer
  · rw [if_pos haccepts] at h
    obtain ⟨rfl, rfl⟩ := Prod.mk.inj (Option.some.inj h)
    have hstream : Accepts (stream.drop q) := hwindow ▸ accepts_append haccepts later
    have hreached := hheld.reached hstream.1.magic_drop
    have hsize : packetSize (stream.drop q) = packetSize buffer := by
      rw [hwindow, packetSize_append haccepts.1.complete]
    refine ⟨_, Or.inl (hreached.packet hstream), ?_, ?_⟩
    · rw [hsize, hdrop _ haccepts.2]
    · rintro points ⟨⟩
      refine ⟨q, hreached, hstream, ?_⟩
      rw [frameAt, hwindow, shown_append haccepts]
      rfl
  rw [if_neg haccepts] at h
  split_ifs at h with hwait
  · obtain ⟨rfl, rfl⟩ := Prod.mk.inj (Option.some.inj h)
    exact ⟨q, hheld, hwindow, nofun⟩
  · obtain ⟨rfl, rfl⟩ := Prod.mk.inj (Option.some.inj h)
    obtain ⟨hlen, hloose⟩ := not_or.mp hwait
    have hstreamlen : q + 32 ≤ stream.length := by
      have hl := congrArg List.length hwindow
      rw [List.length_drop, List.length_append] at hl
      omega
    have hstream : ¬ LooseHeader (stream.drop q) := by
      rw [hwindow, looseHeader_append (by omega)]
      exact hloose
    have hfield : ∀ j, q < j → j + 4 ≤ q + buffer.length →
        field stream j 4 = field buffer (j - q) 4 := by
      intro j hqj hj
      rw [← field_append_left later (show j - q + 4 ≤ buffer.length by omega), ← hwindow,
        field_drop, Nat.add_sub_cancel' hqj.le]
    cases hi : nextMagic buffer with
    | some i =>
      obtain ⟨hge, hle, hmagic, hfirst⟩ := nextMagic_eq_some.mp hi
      refine ⟨q + i, hheld.skip hstreamlen hstream (by omega) ?_, ?_, nofun⟩
      · intro j hqj hji
        rw [hfield j hqj (by omega)]
        exact hfirst (j - q) (by omega) (by omega)
      · rw [hdrop i (by omega), resynced, hi]
    | none =>
      have hnone := nextMagic_eq_none.mp hi
      refine ⟨q + (buffer.length - 3), hheld.skip hstreamlen hstream (by omega) ?_, ?_, nofun⟩
      · intro j hqj hji
        rw [hfield j hqj (by omega)]
        exact hnone (j - q) (by omega) (by omega)
      · rw [hdrop _ (by omega), resynced, hi]
        simp [show 3 < buffer.length by omega]

theorem decodeAllLoop_held {stream buffer later rest : Bytes} {q rounds : ℕ}
    {frames : List (List (ρ × μ))} (hheld : Held stream q)
    (hwindow : stream.drop q = buffer ++ later)
    (h : decodeAllLoop radians metres rounds buffer = some (frames, rest)) :
    ∃ q', Held stream q' ∧ stream.drop q' = rest ++ later ∧
      ∀ points ∈ frames, Framed radians metres stream points := by
  induction rounds generalizing buffer q frames with
  | zero => cases h
  | succ rounds ih =>
    rw [decodeAllLoop, Option.bind_eq_bind, Option.bind_eq_some_iff] at h
    obtain ⟨⟨frame, buffer'⟩, hone, h⟩ := h
    obtain ⟨q', hheld', hwindow', hframe⟩ := tryDecodeOne_held radians metres hheld hwindow hone
    cases frame with
    | none =>
      obtain ⟨rfl, rfl⟩ := Prod.mk.inj (Option.some.inj h)
      exact ⟨q', hheld', hwindow', by simp⟩
    | some points =>
      simp only [Option.bind_eq_bind, Option.bind_eq_some_iff] at h
      obtain ⟨⟨frames', rest'⟩, hrest, h⟩ := h
      obtain ⟨rfl, rfl⟩ := Prod.mk.inj (Option.some.inj h)
      obtain ⟨q'', hheld'', hwindow'', hframes⟩ := ih hheld' hwindow' hrest
      exact ⟨q'', hheld'', hwindow'',
        List.forall_mem_cons.mpr ⟨hframe points rfl, hframes⟩⟩

/-- However a stream is read, every frame emitted is that of a packet the framing comes to. -/
theorem feedAll_held {stream buffer later rest : Bytes} {q : ℕ} {reads : List Bytes}
    {reports : List (List (List (ρ × μ)))} (hheld : Held stream q)
    (hwindow : stream.drop q = buffer ++ (reads.flatten ++ later))
    (h : feedAll (decodeAll radians metres) buffer reads = some (reports, rest)) :
    ∀ points ∈ reports.flatten, Framed radians metres stream points := by
  induction reads generalizing buffer q reports with
  | nil =>
    obtain ⟨rfl, rfl⟩ := Prod.mk.inj (Option.some.inj h)
    simp
  | cons chunk reads ih =>
    rw [feedAll, Option.bind_eq_bind, Option.bind_eq_some_iff] at h
    obtain ⟨⟨report, buffer'⟩, hdecode, h⟩ := h
    simp only [Option.bind_eq_bind, Option.bind_eq_some_iff] at h
    obtain ⟨⟨reports', rest'⟩, hrest, h⟩ := h
    obtain ⟨rfl, rfl⟩ := Prod.mk.inj (Option.some.inj h)
    rw [List.flatten_cons, List.append_assoc, ← List.append_assoc,
      ← feed_eq buffer chunk] at hwindow
    obtain ⟨q', hheld', hwindow', hreport⟩ :=
      decodeAllLoop_held radians metres hheld hwindow hdecode
    intro points hpoints
    rw [List.flatten_cons, List.mem_append] at hpoints
    rcases hpoints with hpoints | hpoints
    · exact hreport points hpoints
    · exact ih hheld' hwindow' hrest points hpoints

/-! Reading byte by byte. -/

/-- After the first `t` bytes of the stream, read one by one, the buffer starts at `p`. -/
def HoldsAt (stream : Bytes) (t p : ℕ) (frames : List (List (ρ × μ))) : Prop :=
  p ≤ t ∧ t ≤ stream.length ∧ ∃ reports,
    feedAll (decodeAll radians metres) [] ((stream.take t).map fun b => [b]) =
      some (reports, (stream.take t).drop p) ∧ reports.flatten = frames

theorem HoldsAt.step {stream : Bytes} {t p p' : ℕ} {frames next : List (List (ρ × μ))}
    (h : HoldsAt radians metres stream t p frames) (ht : t < stream.length) (hp : p' ≤ t + 1)
    (hdecode : decodeAll radians metres ((stream.take (t + 1)).drop p) =
      some (next, (stream.take (t + 1)).drop p')) :
    HoldsAt radians metres stream (t + 1) p' (frames ++ next) := by
  obtain ⟨hpt, -, reports, hfeed, rfl⟩ := h
  have htake : stream.take (t + 1) = stream.take t ++ [stream[t]] := by simp
  have hbuffer : (stream.take t).drop p ++ [stream[t]] = (stream.take (t + 1)).drop p := by
    rw [htake, List.drop_append_of_le_length (by rw [List.length_take]; omega)]
  refine ⟨hp, ht, reports ++ [next], ?_, by simp⟩
  rw [htake, List.map_append, ← htake]
  have hconcat := feedAll_concat hfeed [stream[t]]
  rwa [hbuffer, hdecode] at hconcat

variable {radians metres}

theorem window_length {stream : Bytes} {t p : ℕ} (ht : t ≤ stream.length) :
    ((stream.take t).drop p).length = t - p := by
  rw [List.length_drop, List.length_take]
  omega

theorem window_append (stream : Bytes) {t p : ℕ} (hp : p ≤ t) :
    (stream.take t).drop p ++ stream.drop t = stream.drop p := by
  conv_rhs => rw [← List.take_append_drop t stream]
  by_cases ht : t ≤ stream.length
  · rw [List.drop_append_of_le_length (by rw [List.length_take]; omega)]
  · rw [List.drop_of_length_le (by omega : stream.length ≤ t), List.append_nil, List.append_nil]

/-- While the packet at the start of the buffer is incomplete, bytes are only collected. -/
theorem HoldsAt.wait {stream : Bytes} {t n p : ℕ} {frames : List (List (ρ × μ))}
    (h : HoldsAt radians metres stream t p frames) (htn : t ≤ n) (hn : n ≤ stream.length)
    (hwait : ∀ m, t < m → m ≤ n → m - p < 32 ∨
      LooseHeader (stream.drop p) ∧ m - p < packetSize (stream.drop p)) :
    HoldsAt radians metres stream n p frames := by
  induction n, htn using Nat.le_induction with
  | base => exact h
  | succ n htn ih =>
    have hprev := ih (by omega) fun m htm hmn => hwait m htm (by omega)
    have hp : p ≤ n + 1 := h.1.trans (by omega)
    have hlength := window_length (p := p) hn
    have hstay : ¬ Accepts ((stream.take (n + 1)).drop p) ∧
        (((stream.take (n + 1)).drop p).length < 32 ∨
          LooseHeader ((stream.take (n + 1)).drop p)) := by
      by_cases hshort : n + 1 - p < 32
      · exact ⟨fun ha => absurd ha.1.complete (by omega), Or.inl (by omega)⟩
      · rcases hwait (n + 1) (by omega) le_rfl with hlt | ⟨hloose, hlt⟩
        · exact absurd hlt hshort
        · have hcomplete : 32 ≤ ((stream.take (n + 1)).drop p).length := by omega
          rw [← window_append stream hp, looseHeader_append hcomplete] at hloose
          rw [← window_append stream hp, packetSize_append hcomplete] at hlt
          exact ⟨fun ha => absurd ha.2 (by omega), Or.inr hloose⟩
    have hdecode := decodeAllLoop_stop radians metres hstay.1
      ((stream.take (n + 1)).drop p).length
    rw [if_pos hstay.2] at hdecode
    simpa using hprev.step radians metres hn hp hdecode

/-- The byte that completes a packet makes the viewer emit its frame and empties the buffer. -/
theorem HoldsAt.packet {stream : Bytes} {t p : ℕ} {frames : List (List (ρ × μ))}
    (h : HoldsAt radians metres stream t p frames) (ht : t < p + 32)
    (ha : Accepts (stream.drop p)) :
    HoldsAt radians metres stream (p + packetSize (stream.drop p))
      (p + packetSize (stream.drop p)) (frames ++ [frameAt radians metres stream p]) := by
  obtain ⟨hloose, hfits⟩ := ha
  have hsize := packetSize_ge_header hloose
  rw [List.length_drop] at hfits
  obtain ⟨n, hn⟩ : ∃ n, p + packetSize (stream.drop p) = n + 1 :=
    ⟨p + packetSize (stream.drop p) - 1, by omega⟩
  have hfull : HoldsAt radians metres stream n p frames :=
    h.wait (by omega) (by omega) fun m htm hmn => Or.inr ⟨hloose, by omega⟩
  have hlength : ((stream.take (n + 1)).drop p).length = n + 1 - p := window_length (by omega)
  have happend := window_append stream (show p ≤ n + 1 by omega)
  have hcomplete : 32 ≤ ((stream.take (n + 1)).drop p).length := by omega
  have hwindow : packetSize ((stream.take (n + 1)).drop p) = packetSize (stream.drop p) := by
    rw [← happend, packetSize_append hcomplete]
  have haccepts : Accepts ((stream.take (n + 1)).drop p) := by
    refine ⟨?_, by omega⟩
    rwa [← happend, looseHeader_append hcomplete] at hloose
  have hempty : (stream.take (n + 1)).drop (n + 1) = [] := by simp
  have hdecode : decodeAll radians metres ((stream.take (n + 1)).drop p) =
      some ([frameAt radians metres stream p], (stream.take (n + 1)).drop (n + 1)) := by
    obtain ⟨rounds, hrounds⟩ : ∃ r, ((stream.take (n + 1)).drop p).length = r + 1 :=
      ⟨n - p, by omega⟩
    have hnext : p + packetSize ((stream.take (n + 1)).drop p) = n + 1 := by omega
    have hstop : ¬ Accepts [] := fun h => absurd h.1.complete (by simp)
    rw [decodeAll, decodeAllLoop_packet radians metres haccepts, List.drop_drop, hnext, hempty,
      hrounds, decodeAllLoop_stop radians metres hstop, frameAt, ← happend,
      shown_append haccepts]
    rfl
  rw [hn]
  exact hfull.step radians metres (by omega) le_rfl hdecode

/-- Behind a faulty header the viewer moves on to the next magic value. -/
theorem HoldsAt.scan {stream : Bytes} {t p q : ℕ} {frames : List (List (ρ × μ))}
    (h : HoldsAt radians metres stream t p frames) (ht : t < p + 32) (hpq : p ≤ q)
    (hlen : q + 32 ≤ stream.length) (hq : field stream q 4 = kMagic)
    (hclear : ∀ j, p < j → j < q → field stream j 4 ≠ kMagic)
    (hv : p < q → ¬ LooseHeader (stream.drop p)) :
    ∃ t', t' < q + 32 ∧ HoldsAt radians metres stream t' q frames := by
  induction hd : q - p using Nat.strong_induction_on generalizing t p with
  | h d ih =>
    rcases hpq.eq_or_lt with rfl | hlt
    · exact ⟨t, ht, h⟩
    have hfill : HoldsAt radians metres stream (p + 31) p frames :=
      h.wait (by omega) (by omega) fun m _ hm => Or.inl (by omega)
    have hlength : ((stream.take (p + 32)).drop p).length = 32 := by
      rw [window_length (by omega)]
      omega
    have happend := window_append stream (show p ≤ p + 32 by omega)
    have hloose : ¬ LooseHeader ((stream.take (p + 32)).drop p) := by
      rw [← looseHeader_append hlength.ge, happend]
      exact hv hlt
    have hfield : ∀ i, i + 4 ≤ 32 →
        field ((stream.take (p + 32)).drop p) i 4 = field stream (p + i) 4 := by
      intro i hi
      rw [← field_append_left (stream.drop (p + 32)) (by omega), happend, field_drop]
    have hmove : ∀ p', p' ≤ p + 32 →
        resynced ((stream.take (p + 32)).drop p) = (stream.take (p + 32)).drop p' →
        HoldsAt radians metres stream (p + 32) p' frames := by
      intro p' hp' hresync
      have hdecode := decodeAllLoop_stop radians metres (fun ha => hloose ha.1)
        ((stream.take (p + 32)).drop p).length
      rw [if_neg (not_or.mpr ⟨by omega, hloose⟩), hresync] at hdecode
      simpa using hfill.step radians metres (by omega) hp' hdecode
    cases hi : nextMagic ((stream.take (p + 32)).drop p) with
    | some i =>
      obtain ⟨hge, hle, hmagic, hfirst⟩ := nextMagic_eq_some.mp hi
      rw [hfield i (by omega)] at hmagic
      have hsame : p + i = q := by
        rcases Nat.lt_trichotomy (p + i) q with hlt' | heq | hgt
        · exact absurd hmagic (hclear _ (by omega) hlt')
        · exact heq
        · have hskipped := hfirst (q - p) (by omega) (by omega)
          rw [hfield _ (by omega), Nat.add_sub_cancel' hpq] at hskipped
          exact absurd hq hskipped
      refine ⟨p + 32, by omega, hmove q (by omega) ?_⟩
      rw [resynced, hi, ← hsame]
      exact List.drop_drop
    | none =>
      have hnone := nextMagic_eq_none.mp hi
      have hfar : p + 29 ≤ q := by
        by_contra hnear
        have hskipped := hnone (q - p) (by omega) (by omega)
        rw [hfield _ (by omega), Nat.add_sub_cancel' hpq] at hskipped
        exact hskipped hq
      have hkept : HoldsAt radians metres stream (p + 32) (p + 29) frames := by
        apply hmove _ (by omega)
        rw [resynced, hi, hlength]
        simp [List.drop_drop]
      refine ih (q - (p + 29)) (by omega) hkept (by omega) hfar ?_ ?_ rfl
      · exact fun j hj hjq => hclear j (by omega) hjq
      · exact fun hlt' hl => hclear _ (by omega) hlt' hl.magic_drop

variable (radians metres)

theorem reached_held {stream : Bytes} {o : ℕ} (h : Reached stream o)
    (hlen : o + 32 ≤ stream.length) :
    ∃ t frames, t < o + 32 ∧ HoldsAt radians metres stream t o frames := by
  induction h with
  | start => exact ⟨0, [], by omega, le_rfl, Nat.zero_le _, [], rfl, rfl⟩
  | packet _ ha ih =>
    have hcomplete := ha.1.complete
    rw [List.length_drop] at hcomplete
    obtain ⟨t, frames, ht, hheld⟩ := ih (by omega)
    exact ⟨_, _, by omega, hheld.packet ht ha⟩
  | skip _ holen hv hlt hq hclear ih =>
    obtain ⟨t, frames, ht, hheld⟩ := ih holen
    obtain ⟨t', ht', hnext⟩ := hheld.scan ht hlt.le hlen hq hclear fun _ => hv
    exact ⟨t', frames, ht', hnext⟩

/-- Every packet the framing comes to is emitted by some viewer. -/
theorem reached_emitted {stream : Bytes} {o : ℕ} (h : Reached stream o)
    (ha : Accepts (stream.drop o)) :
    ∃ reads reports rest, reads.flatten <+: stream ∧
      feedAll (decodeAll radians metres) [] reads = some (reports, rest) ∧
      frameAt radians metres stream o ∈ reports.flatten := by
  have hcomplete := ha.1.complete
  rw [List.length_drop] at hcomplete
  obtain ⟨t, frames, ht, hheld⟩ :=
    reached_held radians metres h (by omega)
  obtain ⟨-, -, reports, hfeed, hframes⟩ := hheld.packet ht ha
  refine ⟨_, reports, _, ?_, hfeed, ?_⟩
  · rw [← List.flatMap_def, List.flatMap_singleton']
    exact List.take_prefix _ _
  · rw [hframes]
    simp

end Framing

end AebNode.LidarViewer
