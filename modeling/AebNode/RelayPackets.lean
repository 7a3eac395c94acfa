import AebNode.RelayStream

/-! The joined stream as a list of packets, some of them broken off. The framing stays on the
packets the node encoded unless the bytes of later sessions complete a broken-off one. -/
namespace AebNode.Relay
open LittleEndian Protocol Reader LidarViewer AngleMonitor

/-- A packet of the stream: its frame, and how many of its bytes came through. -/
structure SentPacket where
  frame : Frame
  count : ℕ
  count_le : count ≤ encodedSize frame

namespace SentPacket

def bytes (p : SentPacket) : Bytes := (encode p.frame).take p.count

theorem bytes_length (p : SentPacket) : p.bytes.length = p.count := by
  have hle := p.count_le
  rw [bytes, List.length_take, encode_length]
  omega

/-- The packet came through whole. -/
def Whole (p : SentPacket) : Prop := p.count = encodedSize p.frame

instance : DecidablePred Whole := fun p =>
  inferInstanceAs (Decidable (p.count = encodedSize p.frame))

theorem bytes_whole {p : SentPacket} (h : p.Whole) : p.bytes = encode p.frame := by
  rw [bytes, h]
  exact List.take_of_length_le (encode_length _).le

end SentPacket

def packetsOf : List Frame → ℕ → List SentPacket
  | [], _ => []
  | frame :: frames, cut =>
    ⟨frame, min cut (encodedSize frame), min_le_right _ _⟩ ::
      packetsOf frames (cut - encodedSize frame)

/-- The packets of all sessions. Of a cut-off session they are those before the cut, the one
the cut is in, and empty ones. -/
def packets (sessions : List Session) : List SentPacket :=
  sessions.flatMap fun s => packetsOf s.frames s.cut

theorem packetsOf_bytes (frames : List Frame) (cut : ℕ) :
    (packetsOf frames cut).flatMap SentPacket.bytes = (frames.flatMap encode).take cut := by
  induction frames generalizing cut with
  | nil => simp [packetsOf]
  | cons frame frames ih =>
    have hfirst : (encode frame).take (min cut (encodedSize frame)) = (encode frame).take cut := by
      rw [← List.take_take, List.take_of_length_le (encode_length frame).le]
    rw [packetsOf, List.flatMap_cons, ih, List.flatMap_cons, List.take_append, encode_length]
    exact congrArg (· ++ _) hfirst

theorem upstream_eq (sessions : List Session) :
    upstream sessions = (packets sessions).flatMap SentPacket.bytes := by
  rw [packets, List.flatMap_assoc, upstream]
  congr 1
  funext s
  rw [packetsOf_bytes, Session.bytes]

theorem packetsOf_frame {frames : List Frame} {cut : ℕ} {p : SentPacket}
    (h : p ∈ packetsOf frames cut) : p.frame ∈ frames := by
  induction frames generalizing cut with
  | nil => cases h
  | cons frame frames ih =>
    rcases List.mem_cons.mp h with rfl | h
    · exact List.mem_cons_self ..
    · exact List.mem_cons_of_mem _ (ih h)

theorem packets_frame {sessions : List Session} {p : SentPacket} (h : p ∈ packets sessions) :
    ∃ session ∈ sessions, p.frame ∈ session.frames := by
  obtain ⟨session, hsession, hp⟩ := List.mem_flatMap.mp h
  exact ⟨session, hsession, packetsOf_frame hp⟩

def Within (packets : List SentPacket) (p : SentPacket) (start o : ℕ) : Prop :=
  ∃ before after, packets = before ++ p :: after ∧
    start = (before.flatMap SentPacket.bytes).length ∧ start ≤ o ∧ o < start + p.count

theorem within_exists {packets : List SentPacket} {o : ℕ}
    (h : o < (packets.flatMap SentPacket.bytes).length) : ∃ p start, Within packets p start o := by
  induction packets generalizing o with
  | nil => simp at h
  | cons p packets ih =>
    rw [List.flatMap_cons, List.length_append, p.bytes_length] at h
    by_cases ho : o < p.count
    · exact ⟨p, 0, [], packets, rfl, rfl, Nat.zero_le _, by omega⟩
    · obtain ⟨p', start, before, after, rfl, rfl, hge, hlt⟩ := ih (o := o - p.count) (by omega)
      refine ⟨p', _, p :: before, after, rfl, rfl, ?_, ?_⟩
      all_goals
        rw [List.flatMap_cons, List.length_append, p.bytes_length]
        omega

theorem Within.apart {packets : List SentPacket} {p p' : SentPacket} {start start' o o' : ℕ}
    (h : Within packets p start o) (h' : Within packets p' start' o') :
    (start = start' ∧ p = p') ∨ start + p.count ≤ start' ∨ start' + p'.count ≤ start := by
  obtain ⟨before, after, rfl, rfl, -, -⟩ := h
  obtain ⟨before', after', heq, rfl, -, -⟩ := h'
  rcases List.append_eq_append_iff.mp heq with ⟨between, rfl, hrest⟩ | ⟨between, rfl, hrest⟩
  · cases between with
    | nil => exact Or.inl ⟨by simp, (List.cons.inj hrest).1⟩
    | cons q between =>
      obtain ⟨rfl, -⟩ := List.cons.inj hrest
      refine Or.inr (Or.inl ?_)
      rw [List.flatMap_append, List.length_append, List.flatMap_cons, List.length_append,
        p.bytes_length]
      omega
  · cases between with
    | nil => exact Or.inl ⟨by simp, (List.cons.inj hrest).1.symm⟩
    | cons q between =>
      obtain ⟨rfl, -⟩ := List.cons.inj hrest
      refine Or.inr (Or.inr ?_)
      rw [List.flatMap_append, List.length_append, List.flatMap_cons, List.length_append,
        p'.bytes_length]
      omega

theorem Within.drop_whole {packets : List SentPacket} {p : SentPacket} {start o : ℕ}
    (h : Within packets p start o) (hw : p.Whole) :
    ∃ tail, (packets.flatMap SentPacket.bytes).drop start = encode p.frame ++ tail := by
  obtain ⟨before, after, rfl, rfl, -, -⟩ := h
  refine ⟨after.flatMap SentPacket.bytes, ?_⟩
  rw [List.flatMap_append, List.drop_left, List.flatMap_cons, SentPacket.bytes_whole hw]

/-- Inside a packet that a broken connection cut off. -/
def BrokenOff (sessions : List Session) (o : ℕ) : Prop :=
  ∃ p start, Within (packets sessions) p start o ∧ ¬ p.Whole

/-- The framing comes to an offset inside a broken-off packet, and the bytes relayed from there
on are a complete packet with a header the viewer accepts. -/
def Completed (sessions : List Session) (o : ℕ) : Prop :=
  BrokenOff sessions o ∧ Reached (upstream sessions) o ∧ Accepts ((upstream sessions).drop o)

/-- An accepted packet the framing comes to is one the node encoded, unless it is broken off. -/
theorem accepted_whole {sessions : List Session} {o : ℕ} (hc : ¬ Completed sessions o)
    (h : Reached (upstream sessions) o) (ha : Accepts ((upstream sessions).drop o)) :
    ∃ p start, Within (packets sessions) p start o ∧ p.Whole := by
  have hcomplete := ha.1.complete
  rw [List.length_drop, upstream_eq] at hcomplete
  have hinside : o < ((packets sessions).flatMap SentPacket.bytes).length := by omega
  obtain ⟨p, start, hp⟩ := within_exists hinside
  refine ⟨p, start, hp, ?_⟩
  by_contra hbroken
  exact hc ⟨⟨p, start, hp, hbroken⟩, h, ha⟩

/-- The framing never comes to the inside of a packet that came through whole. -/
theorem reached_aligned {sessions : List Session} (hc : ∀ o, ¬ Completed sessions o) {o : ℕ}
    (h : Reached (upstream sessions) o) {p : SentPacket} {start : ℕ}
    (hp : Within (packets sessions) p start o) (hw : p.Whole) : o = start := by
  induction h generalizing p start with
  | start =>
    obtain ⟨-, -, -, -, hge, -⟩ := hp
    omega
  | packet ho ha ih =>
    rename_i o
    obtain ⟨p', start', hp', hw'⟩ := accepted_whole (hc o) ho ha
    obtain rfl := ih hp' hw'
    obtain ⟨tail, htail⟩ := hp'.drop_whole hw'
    have hsize : packetSize ((upstream sessions).drop o) = p'.count := by
      rw [upstream_eq, htail, encode_packetSize, hw']
    rw [hsize] at hp ⊢
    have happart := hp.apart hp'
    obtain ⟨-, -, -, -, hge, hlt⟩ := hp
    rcases happart with ⟨rfl, rfl⟩ | hafter | hbefore
    · omega
    · omega
    · omega
  | skip ho hlen hv hlt hq hclear ih =>
    rename_i o q
    obtain ⟨tail, htail⟩ := hp.drop_whole hw
    have hloose : LooseHeader ((upstream sessions).drop start) := by
      rw [upstream_eq, htail]
      exact looseHeader_of_valid (encode_valid _ _)
    by_contra hne
    obtain ⟨before, after, hsplit, hstart, hge, hqlt⟩ := hp
    by_cases hos : o < start
    · exact hclear start hos (by omega) hloose.magic_drop
    · obtain rfl := ih ⟨before, after, hsplit, hstart, by omega, by omega⟩ hw
      exact hv hloose

section Relay
variable {ρ δ μ : Type} (radians : FloatBits → ρ) (degrees : FloatBits → δ)
  (metres : FloatBits → μ)

/-- No frame is invented behind the relay as long as the bytes of later sessions complete no
broken-off packet that the framing comes to. One that is completed can be made to show. -/
theorem relay_faithful (sessions : List Session) :
    ((∀ o, ¬ Completed sessions o) → Faithful radians degrees metres sessions) ∧
      ∀ o, Completed sessions o → Emits radians degrees metres sessions
        (frameAt radians metres (upstream sessions) o) := by
  constructor
  · intro hc points hemits
    obtain ⟨o, hreached, haccepts, rfl⟩ := (emits_iff radians degrees metres).mp hemits
    obtain ⟨p, start, hp, hw⟩ := accepted_whole (hc o) hreached haccepts
    obtain rfl := reached_aligned hc hreached hp hw
    obtain ⟨tail, htail⟩ := hp.drop_whole hw
    obtain ⟨before, after, hsplit, -⟩ := hp
    obtain ⟨session, hsession, hframe⟩ := packets_frame (hsplit ▸ List.mem_append_cons_self)
    refine ⟨session, hsession, p.frame, hframe, ?_⟩
    rw [frameAt, shown, upstream_eq, htail, frameOf_encode]
  · rintro o ⟨-, hreached, haccepts⟩
    exact (emits_iff radians degrees metres).mpr ⟨o, hreached, haccepts, rfl⟩

end Relay

theorem not_completed_of_whole {sessions : List Session}
    (h : ∀ p ∈ packets sessions, p.Whole ∨ p.count = 0) (o : ℕ) : ¬ Completed sessions o := by
  rintro ⟨⟨p, start, ⟨before, after, hsplit, -, hge, hlt⟩, hbroken⟩, -⟩
  rcases h p (hsplit ▸ List.mem_append_cons_self) with hw | hempty
  · exact hbroken hw
  · omega

theorem not_completed_of_accepted {sessions : List Session}
    (h : ∀ o < (upstream sessions).length, Accepts ((upstream sessions).drop o) →
      ∃ p start, Within (packets sessions) p start o ∧ p.Whole) (o : ℕ) :
    ¬ Completed sessions o := by
  rintro ⟨⟨p, start, hwithin, hbroken⟩, -, haccepts⟩
  have ho : o < (upstream sessions).length := by
    by_contra hbehind
    have hcomplete := haccepts.1.complete
    rw [List.drop_eq_nil_of_le (not_lt.mp hbehind)] at hcomplete
    simp at hcomplete
  obtain ⟨p', start', hwithin', hwhole⟩ := h o ho haccepts
  have hsame := hwithin.apart hwithin'
  obtain ⟨-, -, -, -, hge, hlt⟩ := hwithin
  obtain ⟨-, -, -, -, hge', hlt'⟩ := hwithin'
  rcases hsame with ⟨-, rfl⟩ | hapart | hapart
  · exact hbroken hwhole
  all_goals omega

def pointFrame : Frame := ⟨1, 0, [⟨0, 0x447A0000, 15⟩]⟩

def emptyFrame : Frame := ⟨2, 0, []⟩

/-- The first session ends inside a header, which the bytes of the second one do not complete to
one that the viewer accepts, and the last one inside a packet with nothing behind it. -/
def splicedSessions : List Session :=
  [⟨[pointFrame, emptyFrame], 62⟩, ⟨[emptyFrame], 32⟩, ⟨[pointFrame], 36⟩]

theorem relay_faithful_spliced :
    (¬ ∀ p ∈ packets splicedSessions, p.Whole) ∧ Faithful id id id splicedSessions := by
  have hrejected : ∀ o < (upstream splicedSessions).length,
      Accepts ((upstream splicedSessions).drop o) → o = 0 ∨ o = 62 := by
    unfold Accepts
    decide +kernel
  refine ⟨by decide +kernel,
    (relay_faithful id id id splicedSessions).1 (not_completed_of_accepted fun o ho haccepts => ?_)⟩
  rcases hrejected o ho haccepts with rfl | rfl
  · exact ⟨_, _, ⟨[], (packets splicedSessions).tail, rfl, rfl, le_rfl, by decide +kernel⟩,
      by decide +kernel⟩
  · exact ⟨_, _, ⟨(packets splicedSessions).take 2, (packets splicedSessions).drop 3, rfl, rfl,
      by decide +kernel, by decide +kernel⟩, by decide +kernel⟩

/-- The first session ends behind the angle of its point. -/
def brokenSessions : List Session := [⟨[pointFrame], 36⟩, ⟨[emptyFrame], 32⟩]

def payload (frame : Frame) : Bytes := (truncated frame).points.flatMap encodePoint

def MagicFree (bytes : Bytes) : Prop := ∀ i < bytes.length, field bytes i 4 ≠ kMagic

instance (bytes : Bytes) : Decidable (MagicFree bytes) := Nat.decidableBallLT _ _

/-- The magic of the second session becomes the distance of the point broken off in the first:
the viewer shows a point 49 mm away that no frame has. -/
theorem broken_packet_is_shown : ¬ ∀ sessions : List Session,
    (∀ session ∈ sessions, ∀ frame ∈ session.frames, MagicFree (payload frame)) →
      Faithful id id id sessions := by
  intro h
  have hfree : ∀ session ∈ brokenSessions, ∀ frame ∈ session.frames,
      MagicFree (payload frame) := by decide +kernel
  have hreads : feedAll (decodeAll id id) [] [upstream brokenSessions] =
      some ([[[(0, 0x42454131)]]], (encode emptyFrame).drop 6) := by decide +kernel
  let turns : List (List Turn) := brokenSessions.map fun s => [⟨[], s.bytes, fun _ => false⟩]
  have hdelivers : Delivers brokenSessions turns := by
    refine .cons ⟨by simp, ?_⟩ (.cons ⟨by simp, ?_⟩ .nil) <;> decide +kernel
  have hattached : Attached 0 turns := by
    intro ts hts t ht
    obtain ⟨s, -, rfl⟩ := List.mem_map.mp hts
    obtain rfl := List.mem_singleton.mp ht
    exact ⟨rfl, by simp⟩
  obtain ⟨clients, reports, hrun, hsent⟩ :=
    run_sent id id [⟨0, []⟩] hattached hdelivers
  have hemits : Emits id id id brokenSessions [(0, 0x42454131)] := by
    refine ⟨turns, 0, clients, reports, hdelivers, hattached, hrun, upstream brokenSessions, ?_,
      [upstream brokenSessions], _, _, ?_, hreads, by simp⟩
    · rw [hsent]
      simp [sentOn]
    · rw [List.flatten_singleton]
  obtain ⟨session, hsession, frame, hframe, hpoints⟩ := h brokenSessions hfree _ hemits
  have hnone : ∀ session ∈ brokenSessions, ∀ frame ∈ session.frames,
      (visiblePoints (truncated frame)).map (scanPoint id id) ≠ [(0, 0x42454131)] := by
    decide +kernel
  exact hnone session hsession frame hframe hpoints.symm

end AebNode.Relay
