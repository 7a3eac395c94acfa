import AebNode.AngleMonitor
import AebNode.ViewerFraming

/-! The stream behind the relay. A viewer of `angle_monitor.py` sees the sessions of the node
joined into one stream, also where a connection broke off inside a packet. -/
namespace AebNode.Relay
open LittleEndian Protocol Reader LidarViewer AngleMonitor

/-- One session of the node: the frames it encoded and the number of bytes that came through
before the connection broke. -/
structure Session where
  frames : List Frame
  cut : ℕ

def Session.bytes (s : Session) : Bytes := (s.frames.flatMap encode).take s.cut

/-- All that the monitor ever receives, which is what it relays. -/
def upstream (sessions : List Session) : Bytes := sessions.flatMap Session.bytes

/-- The turns of each session receive its bytes, in chunks of any size. -/
def Delivers (sessions : List Session) (turns : List (List Turn)) : Prop :=
  List.Forall₂ (fun s ts => ts.flatMap Turn.chunk = s.bytes ∧ ∀ t ∈ ts, t.chunk ≠ [])
    sessions turns

def Attached (viewer : ℕ) (turns : List (List Turn)) : Prop :=
  ∀ ts ∈ turns, ∀ t ∈ ts, t.fails viewer = false ∧ viewer ∉ t.arrivals

/-- What the relay has sent on a socket, for each client that has it. -/
def sentOn (viewer : ℕ) (clients : List Client) : List Bytes :=
  (clients.filter fun c => c.socket = viewer).map Client.sent

section Relay
variable {ρ δ μ : Type} (radians : FloatBits → ρ) (degrees : FloatBits → δ)
  (metres : FloatBits → μ)

/-- Some viewer that was attached from the first byte on emits the frame. -/
def Emits (sessions : List Session) (points : List (ρ × μ)) : Prop :=
  ∃ turns viewer clients reports, Delivers sessions turns ∧ Attached viewer turns ∧
    run degrees metres [⟨viewer, []⟩] turns = some (clients, reports) ∧
    ∃ sent ∈ sentOn viewer clients, ∃ reads frames rest, reads.flatten <+: sent ∧
      feedAll (decodeAll radians metres) [] reads = some (frames, rest) ∧
      points ∈ frames.flatten

def Encoded (sessions : List Session) (points : List (ρ × μ)) : Prop :=
  ∃ session ∈ sessions, ∃ frame ∈ session.frames,
    points = (visiblePoints (truncated frame)).map (scanPoint radians metres)

/-- No frame is invented behind the relay. -/
def Faithful (sessions : List Session) : Prop :=
  ∀ points, Emits radians degrees metres sessions points →
    Encoded radians metres sessions points

theorem sentOn_append (viewer : ℕ) (clients more : List Client) :
    sentOn viewer (clients ++ more) = sentOn viewer clients ++ sentOn viewer more := by
  rw [sentOn, List.filter_append, List.map_append, ← sentOn, ← sentOn]

theorem sentOn_arrivals {viewer : ℕ} {arrivals : List ℕ} (h : viewer ∉ arrivals) :
    sentOn viewer (arrivals.map fun socket => ⟨socket, []⟩) = [] := by
  rw [sentOn, List.map_eq_nil_iff, List.filter_eq_nil_iff]
  simp only [List.mem_map, decide_eq_true_eq]
  rintro _ ⟨socket, hsocket, rfl⟩ rfl
  exact h hsocket

theorem sentOn_broadcast {viewer : ℕ} {fails : ℕ → Bool} (h : fails viewer = false)
    (clients : List Client) (data : Bytes) :
    sentOn viewer (broadcast fails clients data) =
      (sentOn viewer clients).map (· ++ data) := by
  unfold broadcast
  split_ifs with hdata
  · rw [List.length_eq_zero_iff.mp hdata]
    simp
  · have hsame : ∀ c ∈ clients, (decide (c.socket = viewer) && !fails c.socket) =
        decide (c.socket = viewer) := by
      intro c _
      by_cases hc : c.socket = viewer
      · simp [hc, h]
      · simp [hc]
    rw [sentOn, List.filter_map, List.filter_filter, sentOn, ← List.filter_congr hsame,
      List.map_map, List.map_map]
    rfl

theorem sessionLoop_sent (clients : List Client) (buf : Bytes) {viewer : ℕ} {turns : List Turn}
    (h : ∀ t ∈ turns, t.fails viewer = false ∧ viewer ∉ t.arrivals)
    (hchunk : ∀ t ∈ turns, t.chunk ≠ []) :
    ∃ clients' reports, sessionLoop degrees metres clients buf turns = some (clients', reports) ∧
      sentOn viewer clients' = (sentOn viewer clients).map (· ++ turns.flatMap Turn.chunk) := by
  induction turns generalizing clients buf with
  | nil => exact ⟨clients, [], rfl, by simp⟩
  | cons turn turns ih =>
    obtain ⟨⟨hfails, harrivals⟩, hrest⟩ := List.forall_mem_cons.mp h
    obtain ⟨hne, hchunks⟩ := List.forall_mem_cons.mp hchunk
    obtain ⟨frames, buf', hdecode⟩ :=
      decodeFramesLoop_total degrees metres (buf ++ turn.chunk) (Nat.lt_succ_self _)
    obtain ⟨clients', reports, hloop, hsent⟩ := ih (broadcast turn.fails
      (clients ++ turn.arrivals.map fun socket => ⟨socket, []⟩) turn.chunk) buf' hrest hchunks
    refine ⟨clients', frames :: reports, ?_, ?_⟩
    · have hlength : turn.chunk.length ≠ 0 := mt List.length_eq_zero_iff.mp hne
      rw [sessionLoop]
      simp only [hlength, ↓reduceIte, decodeFrames, hdecode, Option.bind_eq_bind,
        Option.bind_some, hloop, Option.pure_def]
    · rw [hsent, sentOn_broadcast hfails, sentOn_append, sentOn_arrivals harrivals,
        List.append_nil, List.map_map, List.flatMap_cons]
      simp [Function.comp_def]

/-- The relay carries the stream on from session to session. -/
theorem run_sent (clients : List Client) {viewer : ℕ} {sessions : List Session}
    {turns : List (List Turn)} (h : Attached viewer turns) (hd : Delivers sessions turns) :
    ∃ clients' reports, run degrees metres clients turns = some (clients', reports) ∧
      sentOn viewer clients' = (sentOn viewer clients).map (· ++ upstream sessions) := by
  induction hd generalizing clients with
  | nil => exact ⟨clients, [], rfl, by simp [upstream]⟩
  | cons hsession _ ih =>
    obtain ⟨hfirst, hrest⟩ := List.forall_mem_cons.mp h
    obtain ⟨clients₁, reports, hrun, hsent⟩ :=
      sessionLoop_sent degrees metres clients [] hfirst hsession.2
    obtain ⟨clients₂, more, hmore, hsent'⟩ := ih clients₁ hrest
    refine ⟨clients₂, reports :: more, ?_, ?_⟩
    · rw [run, runSession, hrun]
      simp [hmore]
    · rw [hsent', hsent, hsession.1, List.map_map, upstream, upstream, List.flatMap_cons]
      simp [Function.comp_def]

/-- What a viewer can emit are the packets of the joined stream that the framing comes to. -/
theorem emits_iff {sessions : List Session} {points : List (ρ × μ)} :
    Emits radians degrees metres sessions points ↔
      Framed radians metres (upstream sessions) points := by
  constructor
  · rintro ⟨turns, viewer, clients, reports, hdelivers, hattached, hrun, sent, hsent, reads,
      frames, rest, ⟨unread, hreads⟩, hfeed, hpoints⟩
    obtain ⟨clients', reports', hrun', hall⟩ :=
      run_sent degrees metres [⟨viewer, []⟩] hattached hdelivers
    obtain ⟨rfl, rfl⟩ := Prod.mk.inj (Option.some.inj (hrun.symm.trans hrun'))
    have hstream : sent = upstream sessions := by
      rw [hall] at hsent
      simpa [sentOn] using hsent
    have hwindow : (upstream sessions).drop 0 = [] ++ (reads.flatten ++ unread) := by
      rw [List.drop_zero, List.nil_append, hreads, hstream]
    exact feedAll_held radians metres (Or.inl .start) hwindow hfeed points hpoints
  · rintro ⟨o, hreached, haccepts, rfl⟩
    let oneByOne (s : Session) : List Turn := s.bytes.map fun b => ⟨[], [b], fun _ => false⟩
    have hdelivers : Delivers sessions (sessions.map oneByOne) := by
      rw [Delivers, List.forall₂_map_right_iff, List.forall₂_same]
      intro s _
      refine ⟨?_, ?_⟩
      · simp [oneByOne, List.flatMap_map]
      · simp [oneByOne]
    have hattached : Attached 0 (sessions.map oneByOne) := by
      intro ts hts t ht
      obtain ⟨s, -, rfl⟩ := List.mem_map.mp hts
      obtain ⟨b, -, rfl⟩ := List.mem_map.mp ht
      exact ⟨rfl, by simp⟩
    obtain ⟨clients, reports, hrun, hsent⟩ :=
      run_sent degrees metres [⟨0, []⟩] hattached hdelivers
    obtain ⟨reads, frames, rest, hprefix, hfeed, hframe⟩ :=
      reached_emitted radians metres hreached haccepts
    refine ⟨_, 0, clients, reports, hdelivers, hattached, hrun, upstream sessions, ?_, reads,
      frames, rest, hprefix, hfeed, hframe⟩
    rw [hsent]
    simp [sentOn]

end Relay

end AebNode.Relay
