import AebNode.ServerStreams

/-! Whether a session can transmit a frame that is older than it. Clearing the queue on accept
catches every frame pushed before, not one whose publisher had already looked. -/
namespace AebNode.TcpServer
open LittleEndian Machine Protocol

variable {ι : Type*}

/-- Entries of the queue are younger than the session that will pop them, and the popped ones
were. The session's own clear restores this, so the time between its installation and the
clear is exempt. -/
structure FreshInvariant (s : TcpServer ι) (h : History ι) : Prop where
  unjoined : s.joinable = false → s.io.pc = .exited
  ready : ∀ k, s.session.socket = some k → s.io.pc ≠ .clearForSession →
    ∀ e ∈ h.queued, k < e.begun
  popped : ∀ e ∈ h.popped, e.1 < e.2.begun

/-- A push into a queue that the current session has already cleared, by a call of `publish`
that began before that session was accepted. -/
def latePush (s : TcpServer ι) (h : History ι) : Action ι → Bool
  | .publish p .push =>
    match s.session.socket with
    | some k => decide (s.io.pc ≠ .clearForSession ∧ (h.running p).begun ≤ k)
    | none => false
  | _ => false

/-- Only the clear itself runs where the clear for a new session is due. -/
theorem ioStep_pc {s t : TcpServer ι} {event : IoEvent} (h : s.ioStep event = some t)
    (he : event ≠ .clearForSession) : s.io.pc ≠ .clearForSession := by
  intro hpc
  cases event <;> simp [ioStep, hpc] at h he

theorem FreshInvariant.cleared {s t : TcpServer ι} {h : History ι} (inv : FreshInvariant s h)
    (hpc : t.joinable = false → t.io.pc = .exited) :
    FreshInvariant t { h with queued := [] } where
  unjoined := hpc
  ready _ _ _ _ he := by simp at he
  popped := inv.popped

theorem FreshInvariant.frame {s t : TcpServer ι} {h : History ι} (inv : FreshInvariant s h)
    (hpc : t.joinable = false → t.io.pc = .exited) (hs : s.io.pc ≠ .clearForSession)
    (hsocket : ∀ k, t.session.socket = some k → s.session.socket = some k) :
    FreshInvariant t h where
  unjoined := hpc
  ready k hk _ := inv.ready k (hsocket k hk) hs
  popped := inv.popped

theorem pump_fresh {s t : TcpServer ι} {h : History ι} (inv : FreshInvariant s h)
    (hstep : s.ioStep .pump = some t) (hpc : t.joinable = false → t.io.pc = .exited) :
    FreshInvariant t (recordIo s h .pump) := by
  have hs := ioStep_pc hstep (by simp)
  have hsocket : t.session.socket = s.session.socket := by
    simp only [ioStep, Option.ite_none_right_eq_some] at hstep
    obtain ⟨-, hstep⟩ := hstep
    split_ifs at hstep <;> obtain rfl := Option.some.inj hstep <;> rfl
  simp only [recordIo]
  split_ifs
  · exact inv.frame hpc hs fun k hk => hsocket ▸ hk
  · cases hk : s.session.socket with
    | none => exact inv.frame hpc hs fun k hk => hsocket ▸ hk
    | some k =>
      cases hqueued : h.queued with
      | nil => exact inv.frame hpc hs fun k hk => hsocket ▸ hk
      | cons e rest =>
        have hfresh := inv.ready k hk hs
        rw [hqueued] at hfresh
        constructor
        case unjoined => exact hpc
        case ready =>
          intro j hj _ x hx
          obtain rfl : k = j := Option.some.inj (hk.symm.trans (hsocket.symm.trans hj))
          exact hfresh x (List.mem_cons_of_mem e hx)
        case popped =>
          intro x hx
          rcases List.mem_append.mp hx with hx | hx
          · exact inv.popped x hx
          · obtain rfl := List.mem_singleton.mp hx
            exact hfresh e List.mem_cons_self

theorem ioStep_fresh {s t : TcpServer ι} {h : History ι} {event : IoEvent}
    (inv : FreshInvariant s h) (hstep : s.ioStep event = some t) :
    FreshInvariant t (recordIo s h event) := by
  have hpc : t.joinable = false → t.io.pc = .exited := by
    intro hj
    have hexited := inv.unjoined ((ioStep_threads hstep).2.2.2 ▸ hj)
    cases event <;> simp [ioStep, hexited] at hstep
  by_cases hclear : event = .clearForSession
  · subst hclear
    exact inv.cleared hpc
  have hs := ioStep_pc hstep hclear
  cases he : event.streams with
  | false =>
    have hrecord : recordIo s h event = h := by cases event <;> first | rfl | contradiction
    rw [hrecord]
    exact inv.frame hpc hs fun k hk => (ioStep_frame hstep he).2.1 ▸ hk
  | true =>
    cases event <;> try contradiction
    case pump => exact pump_fresh inv hstep hpc
    case exitClear => exact inv.cleared hpc
    all_goals
      simp only [ioStep, Option.ite_none_right_eq_some, Option.some.injEq] at hstep
    case accept result =>
      obtain ⟨-, hstep⟩ := hstep
      refine inv.frame hpc hs fun k hk => ?_
      cases result <;> obtain rfl := Option.some.inj hstep <;> exact hk
    case install =>
      obtain ⟨-, rfl⟩ := hstep
      exact ⟨hpc, fun k _ hne => absurd rfl hne, inv.popped⟩
    case service =>
      obtain ⟨-, rfl⟩ := hstep
      simp only [recordIo]
      cases hv : s.session.valid with
      | true => exact inv.frame (by simpa [hv] using hpc) hs fun k hk => hk
      | false => exact inv.cleared (by simpa [hv] using hpc)
    case send result =>
      obtain ⟨-, hstep⟩ := hstep
      refine inv.frame hpc hs fun k hk => ?_
      cases result <;> simp only [Option.ite_none_right_eq_some, Option.some.injEq] at hstep
      case written =>
        obtain ⟨-, rfl⟩ := hstep
        exact hk
      all_goals
        subst hstep
        exact hk
    case closeSession =>
      obtain ⟨-, rfl⟩ := hstep
      refine inv.frame hpc hs fun k hk => ?_
      cases hv : s.session.valid with
      | true => simp [hv, ClientSession.close] at hk
      | false => simpa [hv] using hk

variable [DecidableEq ι]

theorem publishStep_fresh {s t : TcpServer ι} {h : History ι} {p : ι} {event : PublishEvent}
    (inv : FreshInvariant s h) (htimely : latePush s h (.publish p event) = false)
    (hstep : s.publishStep p event = some t) : FreshInvariant t (recordPublish s h p event) := by
  obtain ⟨hsession, -, hio, -, -, hjoinable⟩ := publishStep_frame hstep
  have hunjoined : t.joinable = false → t.io.pc = .exited := by
    rw [hjoinable, hio]
    exact inv.unjoined
  have hkeep : ∀ g : History ι, g.popped = h.popped →
      (∀ e ∈ g.queued, e ∈ h.queued ∨ ∀ k, s.session.socket = some k →
        s.io.pc ≠ .clearForSession → k < e.begun) → FreshInvariant t g := by
    intro g hpopped hqueued
    refine ⟨hunjoined, ?_, hpopped ▸ inv.popped⟩
    rw [hsession, hio]
    intro k hk hpc e he
    rcases hqueued e he with he | he
    · exact inv.ready k hk hpc e he
    · exact he k hk hpc
  cases event with
  | push =>
    refine hkeep _ rfl fun e he => ?_
    have hmem := (BoundedFifo.push_sublist s.queue.capacity h.queued (h.running p)).subset he
    rcases List.mem_append.mp hmem with hmem | hmem
    · exact Or.inl hmem
    · obtain rfl := List.mem_singleton.mp hmem
      refine Or.inr fun k hk hpc => ?_
      simpa [latePush, hk, hpc] using htimely
  | pushThrows => exact hkeep _ rfl fun e he => Or.inl (List.mem_of_mem_drop he)
  | call frame => exact hkeep _ rfl fun e he => Or.inl he
  | loadConnected => exact hkeep _ rfl fun e he => Or.inl he
  | loadRunning => exact hkeep _ rfl fun e he => Or.inl he
  | discard => exact hkeep _ rfl fun e he => Or.inl he
  | addDropped => exact hkeep _ rfl fun e he => Or.inl he
  | signal => exact hkeep _ rfl fun e he => Or.inl he

theorem tracedStep_fresh {sh th : TcpServer ι × History ι} {a : Action ι}
    (inv : FreshInvariant sh.1 sh.2) (htimely : latePush sh.1 sh.2 a = false)
    (hstep : tracedStep sh a = some th) : FreshInvariant th.1 th.2 := by
  obtain ⟨hs, hg⟩ := tracedStep_eq_some.mp hstep
  rw [hg]
  simp only [step, Option.ite_none_left_eq_some] at hs
  obtain ⟨-, hs⟩ := hs
  cases a with
  | publish p event => exact publishStep_fresh inv htimely hs
  | io event => exact ioStep_fresh inv hs
  | owner event =>
    obtain ⟨-, hsession, -, -, hio⟩ := ownerStep_frame hs
    rcases hio with hio | ⟨hio, hjoinable, hjoined⟩
    · refine ⟨?_, ?_, inv.popped⟩
      · intro hj
        rw [hio]
        exact (ownerStep_joinable hs hj).elim inv.unjoined id
      · simp only [record]
        rw [hsession, hio]
        exact inv.ready
    · refine ⟨fun hj => by simp [hjoined] at hj, ?_, inv.popped⟩
      intro k hk _
      have hexited := inv.unjoined hjoinable
      exact inv.ready k (hsession ▸ hk) (by simp [hexited])

/-- A session never transmits a frame whose call of `publish` began before it was accepted, in
every run in which no such call pushes its frame after the session's clear. -/
theorem session_frames_fresh (capacity : ℕ) {as : List (Action ι)} {s : TcpServer ι}
    {h : History ι} (hrun : exec tracedStep (new capacity, {}) as = some (s, h))
    (hpush : Along (fun sh a => latePush sh.1 sh.2 a = false) tracedStep
      ((new capacity : TcpServer ι), {}) as) :
    ∀ e ∈ h.popped, e.1 < e.2.begun := by
  have hstart : FreshInvariant (new capacity : TcpServer ι) {} :=
    ⟨fun _ => rfl, fun _ _ _ _ he => by simp at he, fun _ he => by simp at he⟩
  exact (@exec_invariant_along _ _ _ tracedStep (fun sh => FreshInvariant sh.1 sh.2)
    (fun _ _ _ inv hok hs => tracedStep_fresh inv hok hs) _ _ _ hstart hpush hrun).popped

/-- A frame published to a client that is already served. -/
theorem session_frames_fresh_served :
    let frame : Frame := ⟨7, 9, [⟨1, 2, 3⟩]⟩
    let as : List (Action Unit) := startActions ++ acceptActions ++ publishActions () frame ++
      wakeActions ++ [.io .pump]
    ∃ s h, exec tracedStep (new 4, {}) as = some (s, h) ∧ h.popped = [(0, ⟨0, 1, frame⟩)] ∧
      ∀ e ∈ h.popped, e.1 < e.2.begun := by
  intro frame as
  have hpopped : (exec tracedStep (new 4, {}) as).map (fun sh => sh.2.popped) =
      some [(0, ⟨0, 1, frame⟩)] := by decide +kernel
  have hpush : Along (fun sh a => latePush sh.1 sh.2 a = false) tracedStep
      ((new 4 : TcpServer Unit), {}) as := by decide +kernel
  obtain ⟨⟨s, h⟩, hrun, hlast⟩ := Option.map_eq_some_iff.mp hpopped
  exact ⟨s, h, hrun, hlast, session_frames_fresh 4 hrun hpush⟩

/-- A publisher looks at the flags between the installation of a client's session and the clear
of the queue for it, and pushes after the clear. -/
def latePushActions (frame : Frame) : List (Action Unit) :=
  [.publish () (.call frame), .io .loadStop, .io .prepare, .io (.pollReturns false true {}),
    .io .clientEvents, .io .listenEvents, .io (.accept .connected), .io .install,
    .publish () .loadConnected, .publish () .loadRunning, .io .clearForSession,
    .publish () .push, .io .countConnect, .io .service, .io .pump]

/-- So the session pops a frame that is older than it. -/
theorem session_sends_stale_frame :
    ¬ ∀ (as : List (Action Unit)) (s : TcpServer Unit) (h : History Unit),
      exec tracedStep (new 4, {}) as = some (s, h) → ∀ e ∈ h.popped, e.1 < e.2.begun := by
  intro hclaim
  have hpopped : (exec tracedStep (new 4, {}) (startActions ++
      latePushActions ⟨7, 9, [⟨1, 2, 3⟩]⟩)).map (fun sh => sh.2.popped) =
      some [(0, ⟨0, 0, ⟨7, 9, [⟨1, 2, 3⟩]⟩⟩)] := by decide +kernel
  obtain ⟨⟨s, h⟩, hrun, hlast⟩ := Option.map_eq_some_iff.mp hpopped
  have hin : (0, ⟨0, 0, ⟨7, 9, [⟨1, 2, 3⟩]⟩⟩) ∈ h.popped := hlast ▸ List.mem_singleton_self _
  have hstale := hclaim _ s h hrun _ hin
  exact absurd hstale (lt_irrefl 0)

end AebNode.TcpServer
