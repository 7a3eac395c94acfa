import AebNode.PacketRoundTrip
import AebNode.ServerLifecycle

/-! The connection counters of the server: what the place of the I/O thread says about its
session, and from it what the counters, the flag they are read with and its atomic mirror say
whenever the thread is at the head of its loop or has ended. -/
namespace AebNode.TcpServer
open LittleEndian Machine Protocol

variable {ι : Type*}

@[simp] def IoPc.detached : IoPc → Bool
  | .install | .clearConnected | .countDisconnect | .exitClear | .exitRunning | .exited => true
  | _ => false

@[simp] def IoPc.attached : IoPc → Bool
  | .clearForSession | .countConnect | .pump | .send => true
  | _ => false

@[simp] def IoPc.closing : IoPc → Bool
  | .closeSession | .clearConnected | .countDisconnect => true
  | _ => false

/-- The I/O thread is on its way to make the accepted connection its session. -/
def IoThread.adopts (io : IoThread) : Prop :=
  io.pc = .install ∨ io.pc.closing = true ∧ io.returnTo = .install

structure Seated (s : TcpServer ι) : Prop where
  returnTo : s.io.returnTo.awaitsEndSession = true
  detached : s.io.pc.detached = true → s.session.valid = false
  attached : s.io.pc.attached = true → s.session.valid = true
  adopts : s.io.adopts → s.io.accepted.isSome = true
  socket : ∀ k, s.session.socket = some k ∨ s.io.accepted = some k → k < s.connections.length
  emptied : s.session.valid = false → s.session.sendBuffer = []
  sending : s.io.pc = .send → s.session.sendOffset < s.session.sendBuffer.length

theorem new_seated (capacity : ℕ) : Seated (new capacity : TcpServer ι) :=
  ⟨rfl, fun _ => rfl, by simp [new], by simp [new, IoThread.adopts], by simp [new],
    fun _ => rfl, by simp [new]⟩

/-- A step that leaves the session alone and goes to a place that asks nothing of it. -/
theorem Seated.of_plain {s t : TcpServer ι} (hs : Seated s)
    (hreturn : t.io.returnTo.awaitsEndSession = true) (hsession : t.session = s.session)
    (hconnections : t.connections = s.connections) (haccepted : t.io.accepted = s.io.accepted)
    (hdetached : t.io.pc.detached = false) (hattached : t.io.pc.attached = false)
    (hadopts : t.io.pc.closing = true → t.io.returnTo ≠ .install) : Seated t where
  returnTo := hreturn
  detached h := absurd h (hdetached ▸ Bool.false_ne_true)
  attached h := absurd h (hattached ▸ Bool.false_ne_true)
  adopts h := by
    rcases h with hpc | ⟨hclosing, hback⟩
    · simp [hpc] at hdetached
    · exact absurd hback (hadopts hclosing)
  socket := by
    rw [hsession, hconnections, haccepted]
    exact hs.socket
  emptied := hsession ▸ hs.emptied
  sending h := by simp [h] at hattached

theorem Seated.returned {s t : TcpServer ι} (hs : Seated s) (hclosing : s.io.pc.closing = true)
    (hinvalid : s.session.valid = false) (hsession : t.session = s.session)
    (hconnections : t.connections = s.connections)
    (hio : t.io = { s.io with pc := s.io.returnTo }) : Seated t where
  returnTo := by
    rw [hio]
    exact hs.returnTo
  detached _ := hsession ▸ hinvalid
  attached h := by
    have hreturn := hs.returnTo
    rw [hio] at h
    cases hpc : s.io.returnTo <;> simp [hpc, IoPc.awaitsEndSession] at h hreturn
  adopts h := by
    rw [hio] at h ⊢
    rcases h with hpc | ⟨-, hback⟩
    · exact hs.adopts (Or.inr ⟨hclosing, hpc⟩)
    · exact hs.adopts (Or.inr ⟨hclosing, hback⟩)
  socket := by
    rw [hsession, hconnections, hio]
    exact hs.socket
  emptied := hsession ▸ hs.emptied
  sending h := by
    have hreturn := hs.returnTo
    rw [hio] at h
    simp only at h
    simp [h, IoPc.awaitsEndSession] at hreturn

theorem polling_seated {s t : TcpServer ι} {event : IoEvent} (hs : Seated s)
    (hphase : event.phase = .polling) (h : s.ioStep event = some t) : Seated t := by
  have hreturn := ioStep_returnTo h hs.returnTo
  cases event <;> simp only [IoEvent.phase, reduceCtorEq] at hphase <;>
    simp only [ioStep, Option.ite_none_right_eq_some, Option.some.injEq,
      Option.map_eq_some_iff] at h
  case loadStop =>
    obtain ⟨-, rfl⟩ := h
    cases hstop : s.stopRequested <;> simp only [hstop] at hreturn ⊢ <;>
      exact hs.of_plain hreturn rfl rfl rfl rfl rfl (by simp [callEndSession])
  case pollFails interrupted =>
    obtain ⟨-, rfl⟩ := h
    cases interrupted <;>
      exact hs.of_plain hreturn rfl rfl rfl rfl rfl (by simp [callEndSession])
  case pollReturns wake listen events =>
    obtain ⟨-, rfl⟩ := h
    cases wake <;> exact hs.of_plain hreturn rfl rfl rfl rfl rfl (by simp)
  case drain event =>
    obtain ⟨hpc, ⟨_, next⟩, -, rfl⟩ := h
    cases next
    · exact hs.of_plain hreturn rfl rfl rfl rfl rfl (by simp)
    · exact hs.of_plain hreturn rfl rfl rfl (by simp [hpc]) (by simp [hpc]) (by simp [hpc])
  case clientEvents =>
    obtain ⟨-, rfl⟩ := h
    dsimp only at hreturn ⊢
    split_ifs at hreturn ⊢ <;>
      exact hs.of_plain hreturn rfl rfl rfl rfl rfl (by simp [callEndSession])
  case recv result =>
    obtain ⟨hpc, rfl⟩ := h
    cases result <;>
      exact hs.of_plain hreturn rfl rfl rfl (by simp [hpc, callEndSession])
        (by simp [hpc, callEndSession]) (by simp [hpc, callEndSession])
  case listenEvents =>
    obtain ⟨-, rfl⟩ := h
    cases hready : s.io.listenReady <;>
      exact hs.of_plain hreturn rfl rfl rfl rfl rfl (by simp)
  all_goals
    obtain ⟨-, rfl⟩ := h
    exact hs.of_plain hreturn rfl rfl rfl rfl rfl (by simp)

theorem accepting_seated {s t : TcpServer ι} {event : IoEvent} (hs : Seated s)
    (hphase : event.phase = .accepting) (h : s.ioStep event = some t) : Seated t := by
  have hreturn := ioStep_returnTo h hs.returnTo
  cases event <;> simp only [IoEvent.phase, reduceCtorEq] at hphase <;>
    simp only [ioStep, Option.ite_none_right_eq_some, Option.some.injEq] at h
  case accept result =>
    obtain ⟨hpc, h⟩ := h
    cases result <;> obtain rfl := Option.some.inj h
    case connected =>
      have hsocket : ∀ k, s.session.socket = some k ∨ s.connections.length = k →
          k < s.connections.length + 1 := by
        rintro k (hk | hk)
        · have := hs.socket k (Or.inl hk)
          omega
        · omega
      dsimp only at hreturn ⊢
      split_ifs at hreturn ⊢ with hvalid
      · refine ⟨hreturn, by simp [callEndSession], by simp [callEndSession], fun _ => rfl, ?_,
          hs.emptied, by simp [callEndSession]⟩
        simpa [callEndSession] using hsocket
      · refine ⟨hreturn, fun _ => by simpa using hvalid, by simp, fun _ => rfl, ?_,
          hs.emptied, by simp⟩
        simpa using hsocket
    all_goals
      exact hs.of_plain hreturn rfl rfl rfl (by simp [hpc]) (by simp [hpc]) (by simp [hpc])
  case install =>
    obtain ⟨hpc, rfl⟩ := h
    have haccepted := hs.adopts (Or.inl hpc)
    refine ⟨hreturn, by simp, fun _ => haccepted, by simp [IoThread.adopts], ?_, by simp, by simp⟩
    intro k hk
    exact hs.socket k (Or.inr (by simpa using hk))
  case clearForSession =>
    obtain ⟨hpc, rfl⟩ := h
    have hvalid := hs.attached (by simp [hpc])
    exact ⟨hreturn, by simp, fun _ => hvalid, by simp [IoThread.adopts], hs.socket, hs.emptied,
      by simp⟩
  all_goals
    obtain ⟨-, rfl⟩ := h
    exact hs.of_plain hreturn rfl rfl rfl rfl rfl (by simp)

theorem output_seated {s t : TcpServer ι} {event : IoEvent} (hs : Seated s)
    (hphase : event.phase = .output) (h : s.ioStep event = some t) : Seated t := by
  have hreturn := ioStep_returnTo h hs.returnTo
  cases event <;> simp only [IoEvent.phase, reduceCtorEq] at hphase <;>
    simp only [ioStep, Option.ite_none_right_eq_some, Option.some.injEq] at h
  case service =>
    obtain ⟨-, rfl⟩ := h
    split_ifs at hreturn ⊢ with hvalid
    · exact ⟨hreturn, by simp, fun _ => hvalid, by simp [IoThread.adopts], hs.socket, hs.emptied,
        by simp⟩
    · exact hs.of_plain hreturn rfl rfl rfl rfl rfl (by simp)
  case pump =>
    obtain ⟨hpc, h⟩ := h
    have hvalid := hs.attached (by simp [hpc])
    split_ifs at h with hinvalid hoffset hpopped <;> obtain rfl := Option.some.inj h
    · simp [hvalid] at hinvalid
    · exact ⟨hreturn, by simp, fun _ => hvalid, by simp [IoThread.adopts], hs.socket, hs.emptied,
        fun _ => hoffset⟩
    · refine ⟨hreturn, by simp, fun _ => hvalid, by simp [IoThread.adopts], hs.socket,
        fun hinvalid => ?_, fun _ => ?_⟩
      · exact absurd hvalid (by simpa [ClientSession.valid] using hinvalid)
      · have hlength := encodedSize_ge (s.queue.pop s.session.staging).2.2
        simp only [encode_length]
        omega
    · exact hs.of_plain hreturn rfl rfl rfl rfl rfl (by simp)
  case send result =>
    obtain ⟨hpc, h⟩ := h
    have hvalid := hs.attached (by simp [hpc])
    cases result <;> simp only [Option.ite_none_right_eq_some, Option.some.injEq] at h
    case written n =>
      obtain ⟨-, rfl⟩ := h
      refine ⟨hreturn, by simp, fun _ => hvalid, by simp [IoThread.adopts], ?_,
        fun hinvalid => ?_, by simp⟩
      · intro k hk
        have hlt := hs.socket k hk
        cases hsocket : s.session.socket <;> simpa [hsocket] using hlt
      · exact absurd hvalid (by simpa [ClientSession.valid] using hinvalid)
    case interrupted =>
      subst h
      exact ⟨hreturn, by simp, fun _ => hvalid, by simp [IoThread.adopts], hs.socket, hs.emptied,
        by simp⟩
    all_goals
      subst h
      exact hs.of_plain hreturn rfl rfl rfl rfl rfl (by simp)
  case countProgress =>
    obtain ⟨-, rfl⟩ := h
    cases hfailed : s.io.failed <;> simp only [hfailed] at hreturn ⊢ <;>
      exact hs.of_plain hreturn rfl rfl rfl rfl rfl (by simp [callEndSession])

theorem ending_seated {s t : TcpServer ι} {event : IoEvent} (hs : Seated s)
    (hphase : event.phase = .ending) (h : s.ioStep event = some t) : Seated t := by
  have hreturn := ioStep_returnTo h hs.returnTo
  cases event <;> simp only [IoEvent.phase, reduceCtorEq] at hphase <;>
    simp only [ioStep, Option.ite_none_right_eq_some, Option.some.injEq] at h
  case closeSession =>
    obtain ⟨hpc, rfl⟩ := h
    split_ifs at hreturn ⊢ with hvalid
    · refine ⟨hreturn, fun _ => rfl, by simp, fun hadopts => ?_, ?_, fun _ => rfl, by simp⟩
      · rcases hadopts with hinstall | ⟨-, hback⟩
        · simp at hinstall
        · exact hs.adopts (Or.inr ⟨by simp [hpc], hback⟩)
      · rintro k (hk | hk)
        · simp [ClientSession.close] at hk
        · exact hs.socket k (Or.inr hk)
    · exact hs.returned (by simp [hpc]) (by simpa using hvalid) rfl rfl rfl
  case clearConnected =>
    obtain ⟨hpc, rfl⟩ := h
    refine ⟨hreturn, fun _ => hs.detached (by simp [hpc]), by simp, fun hadopts => ?_, hs.socket,
      hs.emptied, by simp⟩
    rcases hadopts with hinstall | ⟨-, hback⟩
    · simp at hinstall
    · exact hs.adopts (Or.inr ⟨by simp [hpc], hback⟩)
  case countDisconnect =>
    obtain ⟨hpc, rfl⟩ := h
    exact hs.returned (by simp [hpc]) (hs.detached (by simp [hpc])) rfl rfl rfl
  case exitClear | exitRunning =>
    obtain ⟨hpc, rfl⟩ := h
    have hinvalid := hs.detached (by simp [hpc])
    exact ⟨hreturn, fun _ => hinvalid, by simp, by simp [IoThread.adopts], hs.socket, hs.emptied,
      by simp⟩

theorem ioStep_seated {s t : TcpServer ι} {event : IoEvent} (hs : Seated s)
    (h : s.ioStep event = some t) : Seated t := by
  cases hphase : event.phase with
  | polling => exact polling_seated hs hphase h
  | accepting => exact accepting_seated hs hphase h
  | output => exact output_seated hs hphase h
  | ending => exact ending_seated hs hphase h

/-- The session is installed and not yet counted. -/
@[simp] def IoPc.starting : IoPc → Bool
  | .clearForSession | .countConnect => true
  | _ => false

/-- The session is closed and not yet counted. -/
@[simp] def IoPc.ending : IoPc → Bool
  | .clearConnected | .countDisconnect => true
  | _ => false

/-- The thread holds progress that it has not reported yet. -/
@[simp] def IoPc.pumps : IoPc → Bool
  | .pump | .send | .countProgress => true
  | _ => false

def unreportedBytes (s : TcpServer ι) : ℕ := if s.io.pc.pumps then s.io.bytesSent else 0

def unreportedFrames (s : TcpServer ι) : ℕ := if s.io.pc.pumps then s.io.framesSent else 0

/-- The bytes all client sockets together have accepted. -/
def acceptedBytes (s : TcpServer ι) : ℕ := (s.connections.map List.length).sum

/-- The frame whose last byte a call of `send` got rid of. -/
def completed (s : TcpServer ι) : Action ι → List Frame
  | .io (.send (.written n)) => if n = s.session.unsent.length then [s.session.staging] else []
  | _ => []

structure Counted (w : List Frame) (s : TcpServer ι) : Prop where
  connects : s.stats.clientConnects + s.io.pc.starting.toNat =
    s.stats.clientDisconnects + s.session.valid.toNat + s.io.pc.ending.toNat
  mirror : s.clientConnected = (s.session.valid || decide (s.io.pc = .clearConnected))
  flag : s.stats.clientConnected = (s.session.valid && !s.io.pc.starting || s.io.pc.ending)
  errors : s.stats.sendErrors ≤ s.stats.clientDisconnects
  bytes : s.acceptedBytes = s.stats.bytesSent + s.unreportedBytes
  frames : w.length = s.stats.framesSent + s.unreportedFrames

theorem new_counted (capacity : ℕ) : Counted [] (new capacity : TcpServer ι) :=
  ⟨rfl, rfl, rfl, le_rfl, rfl, rfl⟩

variable {w : List Frame}

theorem Counted.of_same {s t : TcpServer ι} (hs : Counted w s)
    (hvalid : t.session.valid = s.session.valid)
    (hconnected : t.clientConnected = s.clientConnected)
    (hstarting : t.io.pc.starting = s.io.pc.starting) (hending : t.io.pc.ending = s.io.pc.ending)
    (hclear : t.io.pc = .clearConnected ↔ s.io.pc = .clearConnected)
    (hstats : t.stats = { s.stats with
      bytesSent := t.stats.bytesSent, framesSent := t.stats.framesSent })
    (haccepted : t.acceptedBytes = s.acceptedBytes)
    (hbytes : t.stats.bytesSent + t.unreportedBytes = s.stats.bytesSent + s.unreportedBytes)
    (hframes : t.stats.framesSent + t.unreportedFrames =
      s.stats.framesSent + s.unreportedFrames) : Counted w t where
  connects := by
    rw [hstats, hvalid, hstarting, hending]
    exact hs.connects
  mirror := by
    rw [hconnected, hvalid, decide_eq_decide.mpr hclear]
    exact hs.mirror
  flag := by
    rw [hstats, hvalid, hstarting, hending]
    exact hs.flag
  errors := by
    rw [hstats]
    exact hs.errors
  bytes := haccepted.trans (hs.bytes.trans hbytes.symm)
  frames := hs.frames.trans hframes.symm

/-- A step between places at which the counters are up to date. -/
theorem Counted.of_settled {s t : TcpServer ι} (hs : Counted w s)
    (hvalid : t.session.valid = s.session.valid) (haccepted : t.acceptedBytes = s.acceptedBytes)
    (hconnected : t.clientConnected = s.clientConnected) (hstats : t.stats = s.stats)
    (hbefore : s.io.pc.starting = false ∧ s.io.pc.ending = false ∧ s.io.pc.pumps = false)
    (hafter : t.io.pc.starting = false ∧ t.io.pc.ending = false ∧ t.io.pc.pumps = false) :
    Counted w t := by
  have hclear : ∀ pc : IoPc, pc.ending = false → pc ≠ .clearConnected := by
    rintro pc hpc rfl
    simp at hpc
  refine hs.of_same hvalid hconnected (hafter.1.trans hbefore.1.symm)
    (hafter.2.1.trans hbefore.2.1.symm)
    (iff_of_false (hclear _ hafter.2.1) (hclear _ hbefore.2.1)) (by rw [hstats]) haccepted ?_ ?_
  · rw [hstats, unreportedBytes, unreportedBytes, hafter.2.2, hbefore.2.2]
    rfl
  · rw [hstats, unreportedFrames, unreportedFrames, hafter.2.2, hbefore.2.2]
    rfl

theorem Counted.of_pumping {s t : TcpServer ι} (hs : Counted w s)
    (hvalid : t.session.valid = s.session.valid) (haccepted : t.acceptedBytes = s.acceptedBytes)
    (hconnected : t.clientConnected = s.clientConnected) (hstats : t.stats = s.stats)
    (hbefore : s.io.pc.pumps = true) (hafter : t.io.pc.pumps = true)
    (hbytes : t.io.bytesSent = s.io.bytesSent) (hframes : t.io.framesSent = s.io.framesSent) :
    Counted w t := by
  have hplace : ∀ pc : IoPc, pc.pumps = true →
      pc.starting = false ∧ pc.ending = false ∧ pc ≠ .clearConnected := by
    intro pc hpc
    cases pc <;> simp at hpc ⊢
  obtain ⟨hstarting, hending, hclear⟩ := hplace _ hbefore
  obtain ⟨hstarting', hending', hclear'⟩ := hplace _ hafter
  refine hs.of_same hvalid hconnected (hstarting'.trans hstarting.symm)
    (hending'.trans hending.symm) (iff_of_false hclear' hclear) (by rw [hstats]) haccepted ?_ ?_
  · rw [hstats, unreportedBytes, unreportedBytes, hafter, hbefore, hbytes]
  · rw [hstats, unreportedFrames, unreportedFrames, hafter, hbefore, hframes]

theorem IoPc.awaitsEndSession_settled {pc : IoPc} (h : pc.awaitsEndSession = true) :
    pc.starting = false ∧ pc.ending = false ∧ pc.pumps = false := by
  cases pc <;> first | contradiction | exact ⟨rfl, rfl, rfl⟩

theorem sum_length_modify (connections : List Bytes) {k : ℕ} (hk : k < connections.length)
    (more : Bytes) : ((connections.modify k (· ++ more)).map List.length).sum =
      (connections.map List.length).sum + more.length := by
  induction connections generalizing k with
  | nil => simp at hk
  | cons bytes connections ih =>
    cases k with
    | zero =>
      simp
      omega
    | succ k =>
      have hi := ih (by simpa using hk)
      simp only [List.modify_succ_cons, List.map_cons, List.sum_cons, hi]
      omega

theorem send_counted {s t : TcpServer ι} {result : SendResult} (hseated : Seated s)
    (hs : Counted w s) (h : s.ioStep (.send result) = some t) :
    Counted (w ++ completed s (.io (.send result))) t := by
  simp only [ioStep, Option.ite_none_right_eq_some] at h
  obtain ⟨hpc, h⟩ := h
  have hvalid := hseated.attached (by simp [hpc])
  have hconnects := hs.connects
  have hmirror := hs.mirror
  have hflag := hs.flag
  have hbytes := hs.bytes
  have hframes := hs.frames
  simp only [hpc, IoPc.starting, IoPc.ending, unreportedBytes, unreportedFrames, IoPc.pumps,
    if_true, reduceCtorEq, decide_false, Bool.or_false, Bool.not_false, Bool.and_true,
    Bool.toNat_false, add_zero] at hconnects hmirror hflag hbytes hframes
  cases result with
  | interrupted =>
    obtain rfl := Option.some.inj h
    simp only [completed, List.append_nil]
    exact hs.of_pumping rfl rfl rfl rfl (by simp [hpc]) rfl rfl rfl
  | wouldBlock =>
    obtain rfl := Option.some.inj h
    simp only [completed, List.append_nil]
    exact hs.of_pumping rfl rfl rfl rfl (by simp [hpc]) rfl rfl rfl
  | failed =>
    obtain rfl := Option.some.inj h
    simp only [completed, List.append_nil]
    exact hs.of_pumping rfl rfl rfl rfl (by simp [hpc]) rfl rfl rfl
  | written n =>
    simp only [Option.ite_none_right_eq_some, Option.some.injEq] at h
    obtain ⟨⟨hpos, hle⟩, rfl⟩ := h
    obtain ⟨k, hk⟩ := Option.isSome_iff_exists.mp hvalid
    have hlt := hseated.socket k (Or.inl hk)
    refine ⟨?_, ?_, ?_, hs.errors, ?_, ?_⟩
    · simpa [ClientSession.valid] using hconnects
    · simpa [ClientSession.valid] using hmirror
    · simpa [ClientSession.valid] using hflag
    · simp only [acceptedBytes, hk, sum_length_modify _ hlt, unreportedBytes, IoPc.pumps, if_true,
        List.length_take, Nat.min_eq_left hle]
      rw [acceptedBytes] at hbytes
      omega
    · have hlast : n = s.session.unsent.length ↔
          s.session.sendBuffer.length ≤ s.session.sendOffset + n := by
        simp only [ClientSession.unsent, List.length_drop] at hle ⊢
        omega
      simp only [completed, hlast, unreportedFrames, IoPc.pumps, if_true]
      split_ifs <;> simp [hframes]
      omega

theorem polling_counted {s t : TcpServer ι} {event : IoEvent} (hs : Counted w s)
    (hphase : event.phase = .polling) (h : s.ioStep event = some t) : Counted w t := by
  cases event <;> simp only [IoEvent.phase, reduceCtorEq] at hphase <;>
    simp only [ioStep, Option.ite_none_right_eq_some, Option.some.injEq,
      Option.map_eq_some_iff] at h
  case loadStop =>
    obtain ⟨hpc, rfl⟩ := h
    refine hs.of_settled rfl rfl rfl rfl (by simp [hpc]) ?_
    cases s.stopRequested <;> simp [callEndSession]
  case pollFails interrupted =>
    obtain ⟨hpc, rfl⟩ := h
    refine hs.of_settled rfl rfl rfl rfl (by simp [hpc]) ?_
    cases interrupted <;> simp [callEndSession]
  case pollReturns wake listen events =>
    obtain ⟨⟨hpc, -⟩, rfl⟩ := h
    refine hs.of_settled rfl rfl rfl rfl (by simp [hpc]) ?_
    cases wake <;> simp
  case drain event =>
    obtain ⟨hpc, ⟨_, next⟩, -, rfl⟩ := h
    refine hs.of_settled rfl rfl rfl rfl (by simp [hpc]) ?_
    cases next <;> simp [hpc]
  case clientEvents =>
    obtain ⟨hpc, rfl⟩ := h
    refine hs.of_settled rfl rfl rfl rfl (by simp [hpc]) ?_
    dsimp only
    split_ifs <;> simp [callEndSession]
  case recv result =>
    obtain ⟨hpc, rfl⟩ := h
    refine hs.of_settled rfl rfl rfl rfl (by simp [hpc]) ?_
    cases result <;> simp [callEndSession, hpc]
  case listenEvents =>
    obtain ⟨hpc, rfl⟩ := h
    refine hs.of_settled rfl rfl rfl rfl (by simp [hpc]) ?_
    cases s.io.listenReady <;> simp
  all_goals
    obtain ⟨hpc, rfl⟩ := h
    exact hs.of_settled rfl rfl rfl rfl (by simp [hpc]) (by simp)

theorem accepting_counted {s t : TcpServer ι} {event : IoEvent} (hseated : Seated s)
    (hs : Counted w s) (hphase : event.phase = .accepting) (h : s.ioStep event = some t) :
    Counted w t := by
  have hconnects := hs.connects
  have hmirror := hs.mirror
  have hflag := hs.flag
  have hbytes := hs.bytes
  have hframes := hs.frames
  simp only [acceptedBytes, unreportedBytes, unreportedFrames] at hbytes hframes
  cases event <;> simp only [IoEvent.phase, reduceCtorEq] at hphase <;>
    simp only [ioStep, Option.ite_none_right_eq_some, Option.some.injEq] at h
  case accept result =>
    obtain ⟨hpc, h⟩ := h
    cases result <;> obtain rfl := Option.some.inj h
    case connected =>
      refine hs.of_settled rfl (by simp [acceptedBytes]) rfl rfl (by simp [hpc]) ?_
      dsimp only
      split_ifs <;> simp [callEndSession]
    all_goals exact hs.of_settled rfl rfl rfl rfl (by simp [hpc]) (by simp [hpc])
  case install =>
    obtain ⟨hpc, rfl⟩ := h
    have hinvalid := hseated.detached (by simp [hpc])
    have haccepted : s.io.accepted.isSome = true := hseated.adopts (Or.inl hpc)
    rw [hinvalid] at hconnects hflag
    refine ⟨?_, ?_, ?_, hs.errors, ?_, ?_⟩
    · simpa [hpc, ClientSession.valid, haccepted] using hconnects
    · simp [ClientSession.valid, haccepted]
    · simpa [hpc, ClientSession.valid, haccepted] using hflag
    · simpa [acceptedBytes, unreportedBytes, hpc] using hbytes
    · simpa [unreportedFrames, hpc] using hframes
  case clearForSession =>
    obtain ⟨hpc, rfl⟩ := h
    exact hs.of_same rfl rfl (by simp [hpc]) (by simp [hpc]) (by simp [hpc]) rfl rfl
      (by simp [unreportedBytes, hpc]) (by simp [unreportedFrames, hpc])
  case countConnect =>
    obtain ⟨hpc, rfl⟩ := h
    have hvalid := hseated.attached (by simp [hpc])
    refine ⟨by simpa [hpc] using hconnects, by simpa [hpc] using hmirror, ?_, hs.errors,
      by simpa [acceptedBytes, unreportedBytes, hpc] using hbytes,
      by simpa [unreportedFrames, hpc] using hframes⟩
    simp [hvalid]

theorem output_counted {s t : TcpServer ι} {event : IoEvent} (hs : Counted w s)
    (hphase : event.phase = .output) (hsend : ∀ result, event ≠ .send result)
    (h : s.ioStep event = some t) : Counted w t := by
  cases event <;> simp only [IoEvent.phase, reduceCtorEq] at hphase <;>
    simp only [ioStep, Option.ite_none_right_eq_some, Option.some.injEq] at h
  case send result => exact absurd rfl (hsend result)
  case service =>
    obtain ⟨hpc, rfl⟩ := h
    split_ifs with hvalid
    · exact hs.of_same rfl rfl (by simp [hpc]) (by simp [hpc]) (by simp [hpc]) rfl rfl
        (by simp [unreportedBytes, hpc]) (by simp [unreportedFrames, hpc])
    · exact hs.of_settled rfl rfl rfl rfl (by simp [hpc]) (by simp)
  case pump =>
    obtain ⟨hpc, h⟩ := h
    split_ifs at h <;> obtain rfl := Option.some.inj h <;>
      exact hs.of_pumping rfl rfl rfl rfl (by simp [hpc]) rfl rfl rfl
  case countProgress =>
    obtain ⟨hpc, rfl⟩ := h
    cases hfailed : s.io.failed <;>
      exact hs.of_same rfl rfl (by simp [hpc, callEndSession]) (by simp [hpc, callEndSession])
        (by simp [hpc, callEndSession]) rfl rfl
        (by simp [unreportedBytes, hpc, callEndSession])
        (by simp [unreportedFrames, hpc, callEndSession])

theorem ending_counted {s t : TcpServer ι} {event : IoEvent} (hseated : Seated s) (hs : Counted w s)
    (hphase : event.phase = .ending) (h : s.ioStep event = some t) : Counted w t := by
  have hconnects := hs.connects
  have hmirror := hs.mirror
  have hflag := hs.flag
  have hbytes := hs.bytes
  have hframes := hs.frames
  simp only [acceptedBytes, unreportedBytes, unreportedFrames] at hbytes hframes
  cases event <;> simp only [IoEvent.phase, reduceCtorEq] at hphase <;>
    simp only [ioStep, Option.ite_none_right_eq_some, Option.some.injEq] at h
  case closeSession =>
    obtain ⟨hpc, rfl⟩ := h
    split_ifs with hvalid
    · rw [hvalid] at hconnects
      refine ⟨by simpa [hpc, ClientSession.valid, ClientSession.close] using hconnects,
        ?_, ?_, hs.errors, by simpa [acceptedBytes, unreportedBytes, hpc] using hbytes,
        by simpa [unreportedFrames, hpc] using hframes⟩
      · simpa [hpc, hvalid] using hmirror
      · simpa [hpc, hvalid] using hflag
    · exact hs.of_settled rfl rfl rfl rfl (by simp [hpc])
        (IoPc.awaitsEndSession_settled hseated.returnTo)
  case clearConnected =>
    obtain ⟨hpc, rfl⟩ := h
    have hinvalid := hseated.detached (by simp [hpc])
    exact ⟨by simpa [hpc] using hconnects, by simp [hinvalid], by simpa [hpc] using hflag,
      hs.errors, by simpa [acceptedBytes, unreportedBytes, hpc] using hbytes,
      by simpa [unreportedFrames, hpc] using hframes⟩
  case countDisconnect =>
    obtain ⟨hpc, rfl⟩ := h
    have hinvalid := hseated.detached (by simp [hpc])
    obtain ⟨hstarting, hending, hpumps⟩ := IoPc.awaitsEndSession_settled hseated.returnTo
    have hback : s.io.returnTo ≠ .clearConnected := by
      intro hreturn
      simp [hreturn] at hending
    have herrors := hs.errors
    refine ⟨?_, ?_, ?_, ?_, ?_, ?_⟩
    · simp only [hstarting, hending, hinvalid] at hconnects ⊢
      simpa [hpc, hinvalid] using hconnects
    · simpa [hpc, hinvalid, hback] using hmirror
    · dsimp only
      rw [hinvalid, hending]
      rfl
    · dsimp only
      split_ifs <;> omega
    · simp only [acceptedBytes, unreportedBytes, hpumps]
      simpa [hpc] using hbytes
    · simp only [unreportedFrames, hpumps]
      simpa [hpc] using hframes
  all_goals
    obtain ⟨hpc, rfl⟩ := h
    exact hs.of_settled rfl rfl rfl rfl (by simp [hpc]) (by simp)

theorem ioStep_counted {s t : TcpServer ι} {event : IoEvent} (hseated : Seated s)
    (hs : Counted w s) (h : s.ioStep event = some t) :
    Counted (w ++ completed s (.io event)) t := by
  by_cases hsend : ∃ result, event = .send result
  · obtain ⟨result, rfl⟩ := hsend
    exact send_counted hseated hs h
  have hquiet : completed s (.io event) = [] := by
    cases event <;> first | rfl | exact absurd ⟨_, rfl⟩ hsend
  rw [hquiet, List.append_nil]
  cases hphase : event.phase with
  | polling => exact polling_counted hs hphase h
  | accepting => exact accepting_counted hseated hs hphase h
  | output => exact output_counted hs hphase (not_exists.mp hsend) h
  | ending => exact ending_counted hseated hs hphase h

theorem Seated.of_other {s t : TcpServer ι} (hs : Seated s) (hsession : t.session = s.session)
    (hconnections : t.connections = s.connections) (hio : t.io = s.io) : Seated t where
  returnTo := hio ▸ hs.returnTo
  detached := by rw [hio, hsession]; exact hs.detached
  attached := by rw [hio, hsession]; exact hs.attached
  adopts := by rw [hio]; exact hs.adopts
  socket := by rw [hsession, hio, hconnections]; exact hs.socket
  emptied := hsession ▸ hs.emptied
  sending := by rw [hio, hsession]; exact hs.sending

theorem Counted.of_other {s t : TcpServer ι} (hs : Counted w s) (hsession : t.session = s.session)
    (hconnections : t.connections = s.connections) (hio : t.io = s.io)
    (hconnected : t.clientConnected = s.clientConnected)
    (hstats : t.stats = { s.stats with
      framesPublished := t.stats.framesPublished, framesDropped := t.stats.framesDropped }) :
    Counted w t where
  connects := by rw [hstats, hsession, hio]; exact hs.connects
  mirror := by rw [hconnected, hsession, hio]; exact hs.mirror
  flag := by rw [hstats, hsession, hio]; exact hs.flag
  errors := by rw [hstats]; exact hs.errors
  bytes := by rw [acceptedBytes, unreportedBytes, hconnections, hio, hstats]; exact hs.bytes
  frames := by rw [unreportedFrames, hio, hstats]; exact hs.frames

theorem ownerStep_flags {s t : TcpServer ι} {event : OwnerEvent}
    (h : s.ownerStep event = some t) : t.stats = s.stats ∧
      (t.clientConnected = s.clientConnected ∨
        s.owner.pc = .stopClearConnected ∧ t.clientConnected = false) := by
  cases event <;> simp only [ownerStep] at h
  case signal =>
    simp only [Option.ite_none_right_eq_some, Option.map_eq_some_iff] at h
    obtain ⟨-, _, -, rfl⟩ := h
    exact ⟨rfl, Or.inl rfl⟩
  case clearConnected =>
    simp only [Option.ite_none_right_eq_some, Option.some.injEq] at h
    obtain ⟨hpc, rfl⟩ := h
    exact ⟨rfl, Or.inr ⟨hpc, rfl⟩⟩
  all_goals
    split_ifs at h <;> obtain rfl := Option.some.inj h <;> exact ⟨rfl, Or.inl rfl⟩

/-- The owner touches what the I/O thread counts only once it has joined the thread, when it
takes down a flag that is down already, and as it starts a new one. -/
theorem ownerStep_counted {s t : TcpServer ι} {event : OwnerEvent} (hlife : Lifecycle s)
    (hseated : Seated s) (hs : Counted w s) (h : s.ownerStep event = some t) :
    Seated t ∧ Counted w t := by
  obtain ⟨hstats, hflag⟩ := ownerStep_flags h
  have hconnected : t.clientConnected = s.clientConnected := by
    rcases hflag with hsame | ⟨hpc, hdown⟩
    · exact hsame
    · have hgone := hlife.exited_of_place (by simp [hpc])
      rw [hdown, hs.mirror, hseated.detached (by simp [hgone]), hgone]
      rfl
  rcases ownerStep_frame h with ⟨-, hsession, hconnections, -, hio | ⟨hio, hunjoined, -⟩⟩
  · exact ⟨hseated.of_other hsession hconnections hio,
      hs.of_other hsession hconnections hio hconnected (by rw [hstats])⟩
  · have hgone := hlife.exited_of_unjoinable hunjoined
    refine ⟨⟨by rw [hio]; rfl, by simp [hio], by simp [hio], by simp [hio, IoThread.adopts], ?_,
      hsession ▸ hseated.emptied, by simp [hio]⟩, ?_⟩
    · intro k hk
      rw [hsession, hio] at hk
      rw [hconnections]
      exact hseated.socket k (Or.inl (by simpa using hk))
    · exact hs.of_settled (hsession ▸ rfl)
        (congrArg (fun connections => (connections.map List.length).sum) hconnections) hconnected
        hstats (by simp [hgone]) (by simp [hio])

variable [DecidableEq ι]

theorem publishStep_counted {s t : TcpServer ι} {p : ι} {event : PublishEvent} (hs : Counted w s)
    (h : s.publishStep p event = some t) : Counted w t := by
  obtain ⟨hsession, hconnections, hio, -⟩ := publishStep_frame h
  refine hs.of_other hsession hconnections hio (publishStep_flags h).2 ?_
  cases event <;> simp only [publishStep, Option.ite_none_right_eq_some, Option.some.injEq,
    Option.map_eq_some_iff] at h
  case signal =>
    obtain ⟨-, _, -, rfl⟩ := h
    rfl
  all_goals
    obtain ⟨-, rfl⟩ := h
    rfl

theorem step_counted {s t : TcpServer ι} {a : Action ι}
    (hs : Lifecycle s ∧ Seated s ∧ Counted w s) (h : s.step a = some t) :
    Lifecycle t ∧ Seated t ∧ Counted (w ++ completed s a) t := by
  obtain ⟨hlife, hseated, hs⟩ := hs
  refine ⟨step_lifecycle hlife h, ?_⟩
  simp only [step, Option.ite_none_left_eq_some] at h
  cases a with
  | publish p event =>
    obtain ⟨hsession, hconnections, hio, -⟩ := publishStep_frame h.2
    rw [show completed s (.publish p event) = [] from rfl, List.append_nil]
    exact ⟨hseated.of_other hsession hconnections hio, publishStep_counted hs h.2⟩
  | owner event =>
    rw [show completed s (.owner event) = [] from rfl, List.append_nil]
    exact ownerStep_counted hlife hseated hs h.2
  | io event => exact ⟨ioStep_seated hseated h.2, ioStep_counted hseated hs h.2⟩

def completedFrames (capacity : ℕ) (as : List (Action ι)) : List Frame :=
  trace step completed (new capacity) as

theorem exec_counted {capacity : ℕ} {as : List (Action ι)} {s : TcpServer ι}
    (h : exec step (new capacity) as = some s) :
    Lifecycle s ∧ Seated s ∧ Counted (completedFrames capacity as) s := by
  have hkeep : ∀ w (s : TcpServer ι) a t, Lifecycle s ∧ Seated s ∧ Counted w s →
      s.step a = some t → Lifecycle t ∧ Seated t ∧ Counted (w ++ completed s a) t :=
    fun _ _ _ _ hs hstep => step_counted hs hstep
  exact exec_trace_invariant hkeep ⟨new_lifecycle capacity, new_seated capacity,
    new_counted capacity⟩ h

/-- The counters at every head of the loop and after its end, over every run: connects less
disconnects is one exactly while a session is valid, and both flags tell the same; errors are
among the disconnects; the bytes are those all client sockets accepted, and the frames those
whose last byte was accepted. -/
theorem connection_counters (capacity : ℕ) {as : List (Action ι)} {s : TcpServer ι}
    (h : exec step (new capacity) as = some s)
    (hplace : s.io.pc = .loopHead ∨ s.io.pc = .exited) :
    s.stats.clientConnects = s.stats.clientDisconnects + (if s.session.valid then 1 else 0) ∧
      s.clientConnected = s.session.valid ∧ s.stats.clientConnected = s.session.valid ∧
      s.stats.sendErrors ≤ s.stats.clientDisconnects ∧
      s.stats.bytesSent = (s.connections.map List.length).sum ∧
      s.stats.framesSent = (completedFrames capacity as).length := by
  obtain ⟨-, -, hs⟩ := exec_counted h
  have hsettled : s.io.pc.starting = false ∧ s.io.pc.ending = false ∧
      s.io.pc.pumps = false ∧ decide (s.io.pc = .clearConnected) = false := by
    rcases hplace with hpc | hpc <;> simp [hpc]
  obtain ⟨hstarting, hending, hpumps, hmirror⟩ := hsettled
  have hconnects := hs.connects
  have hflag := hs.flag
  rw [hstarting, hending] at hconnects hflag
  refine ⟨?_, ?_, ?_, hs.errors, ?_, ?_⟩
  · rw [Bool.toNat_false, add_zero, add_zero] at hconnects
    rw [hconnects]
    cases s.session.valid <;> rfl
  · rw [hs.mirror, hmirror, Bool.or_false]
  · simpa using hflag
  · have hbytes := hs.bytes
    simp only [unreportedBytes, hpumps, Bool.false_eq_true, if_false, add_zero] at hbytes
    exact hbytes.symm
  · have hframes := hs.frames
    simp only [unreportedFrames, hpumps, Bool.false_eq_true, if_false, add_zero] at hframes
    exact hframes.symm

/-- One frame gets through in two pieces before the second breaks off with an error. -/
def errorActions : List (Action Unit) :=
  startActions ++ acceptActions ++ publishActions () ⟨7, 9, [⟨1, 2, 3⟩]⟩ ++
  (publishActions () ⟨8, 9, [⟨1, 2, 3⟩]⟩).take 6 ++ wakeActions ++
  ([.io .pump, .io (.send (.written 40)), .io .pump, .io (.send (.written 2)), .io .pump,
    .io (.send (.written 5)), .io .pump, .io (.send .failed), .io .countProgress,
    .io .closeSession, .io .clearConnected, .io .countDisconnect] : List (Action Unit))

theorem connection_counters_error : ∃ s, exec step (new 4) errorActions = some s ∧
    s.session.valid = false ∧ s.stats.clientConnects = 1 ∧ s.stats.bytesSent = 47 ∧
    s.stats.framesSent = (completedFrames 4 errorActions).length ∧
    s.stats.clientConnects = s.stats.clientDisconnects := by
  have hrun : (exec step (new 4) errorActions).map (fun s =>
      (s.io.pc, s.session.valid, s.stats.clientConnects, s.stats.bytesSent)) =
      some (.loopHead, false, 1, 47) := by decide +kernel
  obtain ⟨s, hs, hlast⟩ := Option.map_eq_some_iff.mp hrun
  simp only [Prod.mk.injEq] at hlast
  obtain ⟨hpc, hvalid, hconnects, hbytes⟩ := hlast
  obtain ⟨hgap, -, -, -, -, hframes⟩ := connection_counters 4 hs (Or.inl hpc)
  refine ⟨s, hs, hvalid, hconnects, hbytes, hframes, ?_⟩
  simpa [hvalid] using hgap

end AebNode.TcpServer
