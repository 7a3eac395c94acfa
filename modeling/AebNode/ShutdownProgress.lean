import AebNode.ServerWakeups
import AebNode.ShutdownEnds

/-! The node never hangs. Wherever the main thread is it has a step of its own, or it waits in a
join for a thread that has one; no thread is assigned or destroyed while it is joinable. -/
namespace AebNode

namespace Lidar

variable {κ : Type*} {config : LidarConfig}

theorem workerStep_exact {s t : Lidar κ} {event : WorkerEvent}
    (hs : ∀ p ∈ s.frame.points, p.IsExact) (h : s.workerStep config event = some t) :
    ∀ p ∈ t.frame.points, p.IsExact := by
  cases event
  case acquire sdk =>
    obtain ⟨-, ⟨message, device, worker, -, -, rfl⟩ | ⟨device, worker, -, -, rfl⟩⟩ :=
      acquire_cases h
    · exact hs
    · exact fun p hp => Revolution.points_exact hp
  all_goals simp only [workerStep, Option.ite_none_right_eq_some, Option.some.injEq] at h
  case setError =>
    obtain ⟨lastError, he⟩ := s.setError_eq s.worker.error
    rw [he] at h
    split_ifs at h <;> obtain rfl := Option.some.inj h <;> exact hs
  case reopen sdk =>
    obtain ⟨-, rfl⟩ := h
    exact hs
  case checkStop =>
    obtain ⟨-, rfl⟩ := h
    split_ifs <;> exact hs
  all_goals
    obtain ⟨-, rfl⟩ := h
    exact hs

/-- The events that begin a call. -/
@[simp] def OwnerEvent.calls : OwnerEvent κ → Bool
  | .start _ | .stop => true
  | _ => false

/-- Inside a call the owner has a step, unless it waits in the join for a thread that lives. -/
theorem ownerStep_enabled (config : LidarConfig) {s : Lidar κ} (hbusy : s.owner.pc ≠ .idle)
    (hlive : s.owner.pc ≠ .terminated)
    (hjoin : s.owner.pc = .stopJoin → s.joinable = true → s.worker.pc = .exited) :
    ∃ event t, event.calls = false ∧ s.ownerStep config event = some t := by
  cases hpc : s.owner.pc with
  | idle => exact absurd hpc hbusy
  | terminated => exact absurd hpc hlive
  | stopNotify => exact ⟨.notify, _, rfl, if_pos hpc⟩
  | stopJoin => exact ⟨.join, _, rfl, if_pos ⟨hpc, hjoin hpc⟩⟩
  | stopClose => exact ⟨.close, _, rfl, if_pos hpc⟩
  | stopClearRunning => exact ⟨.clearRunning, _, rfl, if_pos hpc⟩
  | startClearStop => exact ⟨.clearStop, _, rfl, if_pos hpc⟩
  | startOpen => exact ⟨.open goodBringUp, _, rfl, if_pos hpc⟩
  | startCountConnect => exact ⟨.countConnect, _, rfl, if_pos hpc⟩
  | startSetRunning => exact ⟨.setRunning, _, rfl, if_pos hpc⟩
  | startSpawn => exact ⟨.spawn none, _, rfl, if_pos hpc⟩
  | startAssign => exact ⟨.assign, _, rfl, if_pos hpc⟩
  | startOpenError => exact ⟨.setError, _, rfl, (if_neg (by simp [hpc])).trans (if_pos hpc)⟩
  | startSetError => exact ⟨.setError, _, rfl, if_pos hpc⟩
  | spawnClearRunning =>
    exact ⟨.clearRunning, _, rfl, (if_neg (by simp [hpc])).trans (if_pos hpc)⟩
  | spawnClose => exact ⟨.close, _, rfl, (if_neg (by simp [hpc])).trans (if_pos hpc)⟩

/-- Only a thread that was never joined makes `start` end the program. -/
theorem ownerStep_unterminated {s t : Lidar κ} {event : OwnerEvent κ}
    (hjoinable : s.owner.pc = .startAssign → s.joinable = false)
    (h : s.ownerStep config event = some t) : t.owner.pc ≠ .terminated := by
  cases event <;> simp only [ownerStep, Option.ite_none_right_eq_some, Option.some.injEq] at h
  case start callback =>
    obtain ⟨-, rfl⟩ := h
    dsimp only
    split_ifs <;> simp
  case «open» sdk =>
    obtain ⟨-, rfl⟩ := h
    cases (s.device.open config sdk).2 <;> simp
  case spawn failure =>
    obtain ⟨-, rfl⟩ := h
    cases failure <;> simp
  case assign =>
    obtain ⟨hpc, rfl⟩ := h
    simp [hjoinable hpc]
  case close | clearRunning | setError =>
    split_ifs at h <;> obtain rfl := Option.some.inj h <;> simp
  all_goals
    obtain ⟨-, rfl⟩ := h
    simp

end Lidar

namespace TcpServer
open Machine WakePipe

variable {ι : Type*}

@[simp] def OwnerEvent.calls : OwnerEvent → Bool
  | .start | .stop => true
  | _ => false

/-- Inside a call the owner has a step, unless it waits in the join for a thread that lives. -/
theorem ownerStep_enabled {s : TcpServer ι} (hbusy : s.owner.pc ≠ .idle)
    (hlive : s.owner.pc ≠ .terminated)
    (hjoin : s.owner.pc = .stopJoin → s.joinable = true → s.io.pc = .exited) :
    ∃ event t, event.calls = false ∧ event ≠ .signal .interrupted ∧
      s.ownerStep event = some t := by
  cases hpc : s.owner.pc with
  | idle => exact absurd hpc hbusy
  | terminated => exact absurd hpc hlive
  | stopSignal =>
    obtain ⟨event, r, hevent, hsignal⟩ := signalStep_enabled s.wake s.owner.signal
    exact ⟨.signal event, by simpa [ownerStep, hpc, hsignal] using hevent⟩
  | stopJoin => exact ⟨.join, _, rfl, by simp, if_pos ⟨hpc, hjoin hpc⟩⟩
  | stopResetEnds => exact ⟨.resetEnds, _, rfl, by simp, if_pos hpc⟩
  | stopClearPending => exact ⟨.clearPending, _, rfl, by simp, if_pos hpc⟩
  | stopClearConnected => exact ⟨.clearConnected, _, rfl, by simp, if_pos hpc⟩
  | stopClearRunning => exact ⟨.clearRunning, _, rfl, by simp, if_pos hpc⟩
  | startClearStop => exact ⟨.clearStop, _, rfl, by simp, if_pos hpc⟩
  | startOpenWake => exact ⟨.openWake true, _, rfl, by simp, if_pos hpc⟩
  | startListen => exact ⟨.listen true, _, rfl, by simp, if_pos hpc⟩
  | startSetRunning => exact ⟨.setRunning, _, rfl, by simp, if_pos hpc⟩
  | startSpawn => exact ⟨.spawn true, _, rfl, by simp, if_pos hpc⟩
  | spawnClearRunning =>
    exact ⟨.clearRunning, _, rfl, by simp, (if_neg (by simp [hpc])).trans (if_pos hpc)⟩
  | startResetEnds =>
    exact ⟨.resetEnds, _, rfl, by simp, (if_neg (by simp [hpc])).trans (if_pos hpc)⟩
  | startClearPending =>
    exact ⟨.clearPending, _, rfl, by simp, (if_neg (by simp [hpc])).trans (if_pos hpc)⟩

theorem ownerStep_unjoined {s t : TcpServer ι} {event : OwnerEvent} (hjoinable : s.joinable = false)
    (h : s.ownerStep event = some t) :
    t.owner.pc ≠ .terminated ∧ (t.joinable = false ∨ t.owner.pc = .idle) := by
  cases event <;> simp only [ownerStep, Option.ite_none_right_eq_some, Option.some.injEq,
    Option.map_eq_some_iff] at h
  case start =>
    obtain ⟨-, rfl⟩ := h
    refine ⟨?_, Or.inl hjoinable⟩
    dsimp only
    split_ifs <;> simp
  case signal event =>
    obtain ⟨hpc, ⟨_, next⟩, -, rfl⟩ := h
    cases next <;> simp [hpc, hjoinable]
  case openWake succeeds | listen succeeds =>
    obtain ⟨-, rfl⟩ := h
    cases succeeds <;> simp [hjoinable]
  case spawn succeeds =>
    obtain ⟨-, rfl⟩ := h
    cases succeeds <;> simp [hjoinable]
  case resetEnds | clearPending | clearRunning =>
    split_ifs at h <;> obtain rfl := Option.some.inj h <;> simp [hjoinable]
  all_goals
    obtain ⟨-, rfl⟩ := h
    simp [hjoinable]

/-- What a system call ends in that a signal handler interrupted, or that came to nothing. -/
@[simp] def IoEvent.interrupted : IoEvent → Bool
  | .pollFails _ | .drain .interrupted | .recv .interrupted | .accept .interrupted
  | .send .interrupted => true
  | _ => false

theorem drainStep_enabled (w : WakePipe) (pc : DrainPc) :
    ∃ event r, event ≠ .interrupted ∧ drainStep w pc event = some r := by
  cases pc with
  | read =>
    by_cases hempty : w.bytes = 0
    · exact ⟨.wouldBlock, _, by simp, if_pos hempty⟩
    · exact ⟨.got 1, _, by simp, if_pos (by omega)⟩
  | store => exact ⟨.proceed, _, by simp, rfl⟩

/-- Outside poll no step of the I/O thread waits for anybody; in poll a byte in the pipe is
enough. -/
theorem ioStep_enabled {s : TcpServer ι} (hlive : s.io.pc ≠ .exited)
    (hpoll : s.io.pc = .poll → 0 < s.wake.bytes) :
    ∃ event t, event.interrupted = false ∧ s.ioStep event = some t := by
  cases hpc : s.io.pc with
  | exited => exact absurd hpc hlive
  | loopHead => exact ⟨.loadStop, _, rfl, if_pos hpc⟩
  | prepare => exact ⟨.prepare, _, rfl, if_pos hpc⟩
  | poll =>
    exact ⟨.pollReturns true false {}, _, rfl, if_pos ⟨hpc, fun _ => hpoll hpc, by simp, by simp⟩⟩
  | drain =>
    obtain ⟨event, r, hevent, hdrain⟩ := drainStep_enabled s.wake s.io.drainPc
    have hquiet : (IoEvent.drain event).interrupted = false := by
      cases event <;> simp at hevent ⊢
    exact ⟨.drain event, by simpa [ioStep, hpc, hdrain] using hquiet⟩
  | clientEvents => exact ⟨.clientEvents, _, rfl, if_pos hpc⟩
  | drainInput => exact ⟨.recv .wouldBlock, _, rfl, if_pos hpc⟩
  | listenEvents => exact ⟨.listenEvents, _, rfl, if_pos hpc⟩
  | accept => exact ⟨.accept .none, _, rfl, if_pos hpc⟩
  | install => exact ⟨.install, _, rfl, if_pos hpc⟩
  | clearForSession => exact ⟨.clearForSession, _, rfl, if_pos hpc⟩
  | countConnect => exact ⟨.countConnect, _, rfl, if_pos hpc⟩
  | service => exact ⟨.service, _, rfl, if_pos hpc⟩
  | pump =>
    refine ⟨.pump, ?_⟩
    simp only [ioStep, hpc, if_true]
    split_ifs <;> exact ⟨_, rfl, rfl⟩
  | send => exact ⟨.send .wouldBlock, _, rfl, if_pos hpc⟩
  | countProgress => exact ⟨.countProgress, _, rfl, if_pos hpc⟩
  | closeSession => exact ⟨.closeSession, _, rfl, if_pos hpc⟩
  | clearConnected => exact ⟨.clearConnected, _, rfl, if_pos hpc⟩
  | countDisconnect => exact ⟨.countDisconnect, _, rfl, if_pos hpc⟩
  | exitClear => exact ⟨.exitClear, _, rfl, if_pos hpc⟩
  | exitRunning => exact ⟨.exitRunning, _, rfl, if_pos hpc⟩

/-- While `stop` announces itself and waits, the flag is up. -/
def Asked (s : TcpServer ι) : Prop :=
  s.owner.pc = .stopSignal ∨ s.owner.pc = .stopJoin → s.stopRequested = true

theorem ownerStep_asked {s t : TcpServer ι} {event : OwnerEvent} (hs : Asked s)
    (h : s.ownerStep event = some t) : Asked t := by
  cases event <;> simp only [ownerStep, Option.ite_none_right_eq_some, Option.some.injEq,
    Option.map_eq_some_iff] at h
  case stop =>
    obtain ⟨-, rfl⟩ := h
    exact fun _ => rfl
  case signal event =>
    obtain ⟨hpc, ⟨_, next⟩, -, rfl⟩ := h
    exact fun _ => hs (Or.inl hpc)
  case start =>
    obtain ⟨-, rfl⟩ := h
    cases s.running <;> simp [Asked]
  case openWake succeeds | listen succeeds =>
    obtain ⟨-, rfl⟩ := h
    cases succeeds <;> simp [Asked]
  case spawn succeeds =>
    obtain ⟨-, rfl⟩ := h
    split_ifs <;> simp [Asked]
  case resetEnds | clearPending | clearRunning =>
    split_ifs at h <;> obtain rfl := Option.some.inj h <;> simp [Asked]
  all_goals
    obtain ⟨-, rfl⟩ := h
    simp [Asked]

variable [DecidableEq ι]

theorem step_asked {s t : TcpServer ι} {a : Action ι} (hs : Asked s) (h : s.step a = some t) :
    Asked t := by
  simp only [step, Option.ite_none_left_eq_some] at h
  cases a with
  | owner event => exact ownerStep_asked hs h.2
  | publish p event =>
    obtain ⟨-, -, -, howner, hflag, -⟩ := publishStep_frame h.2
    rwa [Asked, howner, hflag]
  | io event =>
    obtain ⟨-, howner, hflag, -⟩ := ioStep_threads h.2
    rwa [Asked, howner, hflag]

/-- Wherever a call of `publish` is, or where a new one of any frame is to begin, it has a step. -/
theorem publishStep_enabled (s : TcpServer ι) (p : ι) (frame : Protocol.Frame) :
    ∃ event t, (event = .call frame ∨ ∀ f, event ≠ .call f) ∧ event ≠ .signal .interrupted ∧
      s.publishStep p event = some t := by
  cases hpc : (s.calls p).pc with
  | idle => exact ⟨.call frame, _, Or.inl rfl, by simp, if_pos hpc⟩
  | loadConnected => exact ⟨.loadConnected, _, Or.inr (by simp), by simp, if_pos hpc⟩
  | loadRunning => exact ⟨.loadRunning, _, Or.inr (by simp), by simp, if_pos hpc⟩
  | discard => exact ⟨.discard, _, Or.inr (by simp), by simp, if_pos hpc⟩
  | push => exact ⟨.push, _, Or.inr (by simp), by simp, if_pos hpc⟩
  | addDropped => exact ⟨.addDropped, _, Or.inr (by simp), by simp, if_pos hpc⟩
  | signal =>
    obtain ⟨event, r, hevent, hsignal⟩ := signalStep_enabled s.wake (s.calls p).signal
    exact ⟨.signal event, by simpa [publishStep, hpc, hsignal] using hevent⟩

end TcpServer

namespace Application
open CommandLine Machine Protocol TcpServer WakePipe

variable {options : Options} {v : List Milestone} {w : List Fate} {g : History Unit}

theorem exec_server {capacity : ℕ} {as : List Action} {s : Application}
    (h : exec (step options) (new capacity) as = some s) :
    exec TcpServer.step (TcpServer.new capacity) (as.filterMap serverAction) = some s.server :=
  exec_project Application.server serverAction (fun _ _ _ hstep => step_server hstep) h

/-- What keeps the threads moving: nobody ended the program, the I/O thread will be woken, and
the frame in hand can be published. -/
structure Unstuck (s : Application) : Prop where
  life : Starting s.server ∨ WakeInvariant s.server
  starting : s.pc = .startServer → s.server.joinable = false
  server : s.server.owner.pc ≠ .terminated
  lidar : s.lidar.owner.pc ≠ .terminated
  place : s.pc ≠ .terminated
  exact : ∀ p ∈ s.lidar.frame.points, p.IsExact

theorem new_unstuck (capacity : ℕ) : Unstuck (new capacity) where
  life := Or.inr (.of_exited rfl rfl)
  starting h := by simp [new] at h
  server := by simp [new, TcpServer.new]
  lidar := by simp [new, Lidar.new]
  place := by simp [new]
  exact p hp := by simp [new, Lidar.new] at hp

theorem ownerStep_life {s : Application} {server : TcpServer Unit} {event : OwnerEvent}
    (hv : Wired options v s) (htied : Tied w g s) (hcapacity : 0 < s.server.queue.capacity)
    (hs : Unstuck s) (hcall : event = .start → s.pc = .startServer)
    (h : s.server.step (.owner event) = some server) : Starting server ∨ WakeInvariant server := by
  by_cases hstart : event = .start
  · subst hstart
    have hpc := hcall rfl
    have hexited := hv.lifecycle.exited_of_unjoinable (hs.starting hpc)
    cases hrunning : s.server.running with
    | true =>
      simp only [TcpServer.step, ownerStep, hrunning, Option.ite_none_left_eq_some,
        Option.ite_none_right_eq_some, Option.some.injEq] at h
      rcases h with ⟨-, -, rfl⟩
      exact Or.inr (.of_exited hexited rfl)
    | false =>
      have hidle : (s.server.calls ()).pc = .idle := by
        by_contra hbusy
        have hended : s.lidar.worker.pc = .exited := (hv.place hpc).2.1.2.exited
        exact absurd (htied.calling hbusy).1 (by simp [hended])
      exact Or.inl (start_starting hv.lifecycle hrunning (fun _ => by simp [hidle]) h)
  · exact (step_life s.server (.owner event) server ⟨hs.life, hcapacity⟩ (by simpa using hstart)
      h).1

theorem serverReturns_place (s : Application) (event : OwnerEvent) (hpc : s.pc ≠ .terminated) :
    (s.serverReturns event).lidar = s.lidar ∧ (s.serverReturns event).pc ≠ .terminated ∧
      ((s.serverReturns event).pc = .startServer →
        s.pc = .startServer ∧ s.server.owner.pc ≠ .idle) := by
  unfold serverReturns
  split_ifs with hbusy
  · exact ⟨rfl, hpc, fun hstart => ⟨hstart, hbusy⟩⟩
  · simp
  · simp
  · cases s.hasLidar <;> simp [shutdown]

theorem server_unstuck {s t : Application} {event : OwnerEvent} (hv : Wired options v s)
    (htied : Tied w g s) (hcapacity : 0 < s.server.queue.capacity) (hs : Unstuck s)
    (h : s.mainStep options (.server event) = some t) : Unstuck t := by
  simp only [mainStep, Option.ite_none_right_eq_some] at h
  rcases h with ⟨⟨hsome, hcall⟩, h⟩
  rcases Option.map_eq_some_iff.mp h with ⟨server, hserver, rfl⟩
  have hstep := (Option.ite_none_left_eq_some.mp hserver).2
  rcases serverReturns_place { s with
    server := server, listening := s.listeningAfter event } event hs.place with
    ⟨hlidar, hplace, hstart⟩
  have hlife : Starting server ∨ WakeInvariant server := by
    refine ownerStep_life hv htied hcapacity hs (fun hevent => ?_) hserver
    subst hevent
    have hidle : s.server.owner.pc = .idle := by
      simp only [ownerStep, Option.ite_none_right_eq_some] at hstep
      exact hstep.1
    have hnow := hcall.mp hidle
    rcases serverCall_isSome hsome with hpc | hpc
    · exact hpc
    · simp [hpc, serverCall] at hnow
  refine ⟨?_, ?_, ?_, by rw [hlidar]; exact hs.lidar, hplace, by rw [hlidar]; exact hs.exact⟩
  · rwa [serverReturns_server]
  · intro hstill
    rcases hstart hstill with ⟨hpc, hbusy⟩
    rw [serverReturns_server]
    exact (ownerStep_unjoined (hs.starting hpc) hstep).2.resolve_right hbusy
  · rw [serverReturns_server]
    rcases serverCall_isSome hsome with hpc | hpc
    · exact (ownerStep_unjoined (hs.starting hpc) hstep).1
    · simp only [hpc, serverCall, Option.some.injEq] at hcall
      have hstops := (TcpServer.ownerStep_stops hv.serverWinding (hv.place hpc).2.2.1.1
        (fun hidle => (hcall.mp hidle).symm) hstep).2.1
      intro hends
      simp [show server.owner.pc = .terminated from hends] at hstops

theorem lidar_unstuck {s t : Application} {event : Lidar.OwnerEvent Unit}
    (hv : Wired options v s) (hs : Unstuck s)
    (h : s.mainStep options (.lidar event) = some t) : Unstuck t := by
  simp only [mainStep, Option.ite_none_right_eq_some] at h
  rcases h with ⟨⟨hsome, hcall⟩, h⟩
  rcases Option.map_eq_some_iff.mp h with ⟨lidar, hlidar, rfl⟩
  have hstep := (Option.ite_none_left_eq_some.mp hlidar).2
  have hexact : ∀ p ∈ lidar.frame.points, p.IsExact := by
    rw [(Lidar.ownerStep_frame hstep).1]
    exact hs.exact
  have hassign : s.lidar.owner.pc = .startAssign → s.lidar.joinable = false := by
    intro howner
    rcases lidarCall_isSome hsome with hpc | hpc | hpc
    · exact (hv.place hpc).2.1.2
    all_goals
      have hstops : s.lidar.owner.pc.stops = true := (hv.place hpc).2.1
      simp [howner] at hstops
  have hlives := Lidar.ownerStep_unterminated hassign hstep
  have hjoined : s.pc = .destroyLidar → lidar.owner.pc = .idle → lidar.joinable = false := by
    intro hpc hidle
    simp only [hpc, lidarCall, Option.some.injEq] at hcall
    exact ((Lidar.ownerStep_stops hv.supervised hv.lidarWinding (hv.place hpc).2.1
      (fun hidle => (hcall.mp hidle).symm) hstep).2.2 hidle).joined
  have hnot : s.pc ≠ .startServer := by
    intro hpc
    simp [hpc, lidarCall] at hsome
  unfold lidarReturns
  split_ifs with hbusy hstop hdestroy
  · exact ⟨hs.life, hs.starting, hs.server, hlives, hs.place, hexact⟩
  · exact ⟨hs.life, by simp, hs.server, hlives, by simp, hexact⟩
  · rw [releaseLidar, if_neg (by simp [hjoined hdestroy (not_not.mp hbusy)])]
    exact ⟨hs.life, by simp, hs.server, hlives, by simp, hexact⟩
  · exact ⟨hs.life, by simp, hs.server, hlives, by simp, hexact⟩
  · exact ⟨hs.life, by simp, hs.server, hlives, by simp, hexact⟩

theorem mainStep_unstuck {s t : Application} {event : MainEvent} (hv : Wired options v s)
    (htied : Tied w g s) (hcapacity : 0 < s.server.queue.capacity) (hs : Unstuck s)
    (h : s.mainStep options event = some t) : Unstuck t := by
  have hmove : ∀ u : Application, u.server = s.server → u.lidar = s.lidar →
      u.pc ≠ .startServer → u.pc ≠ .terminated → Unstuck u := by
    intro u hserver hlidar hstart hplace
    exact ⟨hserver ▸ hs.life, fun hpc => absurd hpc hstart, hserver ▸ hs.server,
      hlidar ▸ hs.lidar, hplace, hlidar ▸ hs.exact⟩
  have hshutdown : ∀ u : Application, u.server = s.server → u.lidar = s.lidar →
      Unstuck u.shutdown := by
    intro u hserver hlidar
    refine hmove _ hserver hlidar ?_ ?_ <;> cases hheld : u.hasLidar <;> simp [shutdown, hheld]
  cases event with
  | server event => exact server_unstuck hv htied hcapacity hs h
  | lidar event => exact lidar_unstuck hv hs h
  | openCan kernel =>
    simp only [mainStep, Option.ite_none_right_eq_some] at h
    rcases h with ⟨hpc, h⟩
    have hjoined : s.server.joinable = false := (hv.place hpc).2.2.1.2.1.joined
    have hstart : ∀ bus, Unstuck { s with canBus := bus, pc := .startServer } := fun bus =>
      ⟨hs.life, fun _ => hjoined, hs.server, hs.lidar, by simp, hs.exact⟩
    split_ifs at h <;> obtain rfl := Option.some.inj h
    · exact hstart s.canBus
    · exact hstart _
    · exact hmove _ rfl rfl (by simp) (by simp)
  | installSignals succeeds =>
    simp only [mainStep, Option.ite_none_right_eq_some, Option.some.injEq] at h
    rcases h with ⟨-, rfl⟩
    cases succeeds <;> exact hmove _ rfl rfl (by simp) (by simp)
  | wait result =>
    simp only [mainStep, Option.ite_none_right_eq_some, Option.some.injEq] at h
    rcases h with ⟨-, rfl⟩
    cases result with
    | signal number => cases number <;> first | exact hshutdown _ rfl rfl | exact hs
    | interrupted => exact hs
    | timedOut => exact hmove _ rfl rfl (by simp) (by simp)
  | checkRunning =>
    simp only [mainStep, Option.ite_none_right_eq_some, Option.some.injEq] at h
    rcases h with ⟨-, rfl⟩
    split_ifs
    · exact hmove _ rfl rfl (by simp) (by simp)
    · exact hshutdown _ rfl rfl
  | closeCan =>
    simp only [mainStep, Option.ite_none_right_eq_some, Option.some.injEq] at h
    rcases h with ⟨-, rfl⟩
    refine hmove _ (leave_server _) (leave_frame _).1 ?_ ?_ <;>
      cases s.leaving <;> cases s.hasLidar <;> simp [leave, shutdown]
  | constructLidar =>
    simp only [mainStep, Option.ite_none_right_eq_some, Option.some.injEq] at h
    rcases h with ⟨-, rfl⟩
    exact ⟨hs.life, by simp, hs.server, by simp [Lidar.new], by simp, by simp [Lidar.new]⟩
  | destroy =>
    simp only [mainStep, Option.ite_none_right_eq_some, Option.some.injEq] at h
    rcases h with ⟨-, rfl⟩
    exact hshutdown _ rfl rfl
  | run =>
    simp only [mainStep, Option.ite_none_right_eq_some, Option.some.injEq] at h
    rcases h with ⟨-, rfl⟩
    exact hmove _ rfl rfl (by simp) (by simp)

theorem step_unstuck {s t : Application} {a : Action} (hv : Wired options v s)
    (htied : Tied w g s) (hcapacity : 0 < s.server.queue.capacity) (hs : Unstuck s)
    (h : s.step options a = some t) : Unstuck t := by
  have hstep := (Option.ite_none_left_eq_some.mp h).2
  cases a with
  | main event => exact mainStep_unstuck hv htied hcapacity hs hstep
  | acquisition event =>
    rcases acquisitionStep_spec hstep with ⟨lidar, callback, hlidar, rfl⟩
    have howner := (Lidar.workerStep_frame hlidar).2.2.1
    exact ⟨hs.life, hs.starting, hs.server, howner ▸ hs.lidar, hs.place,
      Lidar.workerStep_exact hs.exact hlidar⟩
  | callback event =>
    rcases callbackStep_spec hstep with ⟨-, server, canBus, callback, hserver, -, -, rfl⟩
    rcases hserver with rfl | ⟨publish, hpublish⟩
    · exact ⟨hs.life, hs.starting, hs.server, hs.lidar, hs.place, hs.exact⟩
    · rcases publishStep_frame hpublish with ⟨-, -, -, howner, -, hjoinable⟩
      have hlife := (step_life s.server (.publish () publish) server ⟨hs.life, hcapacity⟩ (by simp)
        ((if_neg hs.server).trans hpublish)).1
      exact ⟨hlife, fun hpc => hjoinable.trans (hs.starting hpc), howner ▸ hs.server, hs.lidar,
        hs.place, hs.exact⟩
  | io event =>
    rcases Option.map_eq_some_iff.mp hstep with ⟨server, hio, rfl⟩
    rcases ioStep_threads (Option.ite_none_left_eq_some.mp hio).2 with ⟨-, howner, -, hjoinable⟩
    have hlife := (step_life s.server (.io event) server ⟨hs.life, hcapacity⟩ (by simp) hio).1
    exact ⟨hlife, fun hpc => hjoinable.trans (hs.starting hpc), howner ▸ hs.server, hs.lidar,
      hs.place, hs.exact⟩

/-- The steps that bring the main thread on: its own, and where it waits in a join, those of the
thread it waits for. -/
def awaits (s : Application) : Action → Bool
  | .main _ => true
  | .acquisition _ | .callback _ => s.lidar.owner.pc = .stopJoin
  | .io _ => s.server.owner.pc = .stopJoin

@[simp] def Action.interrupted : Action → Bool
  | .main (.wait .interrupted) => true
  | .io event => event.interrupted
  | a => a.rewrites

/-- A step that brings the main thread on can be taken, and not as an interrupted call. -/
def Moves (options : Options) (s : Application) : Prop :=
  ∃ a, s.awaits a = true ∧ a.interrupted = false ∧ (s.step options a).isSome = true

theorem Unstuck.step_eq {s : Application} (hs : Unstuck s) (a : Action) : s.step options a =
    match a with
    | .main event => s.mainStep options event
    | .acquisition event => s.acquisitionStep options event
    | .callback event => s.callbackStep options event
    | .io event => (s.server.ioStep event).map fun server => { s with server := server } := by
  refine (if_neg (by simp [hs.place, hs.server, hs.lidar])).trans ?_
  cases a with
  | io event => exact congrArg (Option.map _) (if_neg hs.server)
  | _ => rfl

theorem Unstuck.acquisition_moves {s : Application} (hs : Unstuck s)
    (hlive : s.lidar.worker.pc ≠ .exited) (hjoin : s.lidar.owner.pc = .stopJoin) :
    Moves options s := by
  by_cases hpc : s.lidar.worker.pc = .inCallback
  · cases hcallback : s.callback with
    | publish =>
      rcases exists_bits_of_exact hs.exact with ⟨bits, hbits⟩
      rcases publishStep_enabled s.server () bits with ⟨event, server, hcall, hquiet, hserver⟩
      have hcarries : carries s.lidar.frame event = true := by
        rcases hcall with rfl | hcall
        · simp [carries, hbits]
        · cases event <;> first | rfl | exact absurd rfl (hcall _)
      refine ⟨.callback (.publish event), by simp [awaits, hjoin], ?_, ?_⟩
      · cases event with
        | signal event => cases event <;> simp at hquiet ⊢
        | _ => rfl
      · simp [hs.step_eq, callbackStep, TcpServer.step, hpc, hcallback, hcarries, hs.server,
          hserver]
    | decide =>
      refine ⟨.callback (.decide true), by simp [awaits, hjoin], rfl, ?_⟩
      simp [hs.step_eq, callbackStep, hpc, hcallback, lidarCallback_ok]
    | finished throws =>
      refine ⟨.acquisition (.callbackEnds throws), by simp [awaits, hjoin], rfl, ?_⟩
      simp [hs.step_eq, acquisitionStep, Lidar.step, Lidar.workerStep, hpc, hcallback, hs.lidar]
  · rcases Lidar.workerStep_enabled options.lidar hlive with ⟨event, lidar, hlidar⟩
    refine ⟨.acquisition event, by simp [awaits, hjoin], rfl, ?_⟩
    have hstep : s.lidar.step options.lidar (.worker event) = some lidar :=
      (if_neg hs.lidar).trans hlidar
    rw [hs.step_eq]
    cases event
    case callbackEnds throws =>
      simp only [Lidar.workerStep, Option.ite_none_right_eq_some] at hlidar
      exact absurd hlidar.1 hpc
    all_goals simp [acquisitionStep, hstep]

/-- In `stop` the I/O thread moves: the flag is up, so in poll it is woken. -/
theorem Unstuck.io_moves {s : Application} (hs : Unstuck s) (hasked : Asked s.server)
    (hidle : (s.server.calls ()).pc = .idle) (hlive : s.server.io.pc ≠ .exited)
    (hjoin : s.server.owner.pc = .stopJoin) : Moves options s := by
  have hwoken : s.server.io.pc = .poll → 0 < s.server.wake.bytes := by
    intro hpoll
    have hwake : WakeInvariant s.server := by
      rcases hs.life with hstarting | hwake
      · exact absurd hstarting.exited hlive
      · exact hwake
    rcases hwake.stop_alert (Or.inr hpoll) (hasked (Or.inr hjoin)) with hbytes | ⟨c, hc⟩
    · exact hbytes
    · rcases c with _ | ⟨⟩ <;> simp [notifying, hjoin, hidle] at hc
  rcases ioStep_enabled hlive hwoken with ⟨event, server, hquiet, hserver⟩
  exact ⟨.io event, by simp [awaits, hjoin], hquiet, by simp [hs.step_eq, hserver]⟩

theorem Unstuck.lidar_moves {s : Application} (hs : Unstuck s) {call : Lidar.OwnerEvent Unit}
    (hcall : lidarCall s.pc = some call) (hbegins : call = .stop ∨ call = .start (some ())) :
    Moves options s := by
  have hmoves : ∀ event lidar, (s.lidar.owner.pc = .idle ↔ call = event) →
      s.lidar.ownerStep options.lidar event = some lidar → Moves options s := by
    intro event lidar hiff hstep
    refine ⟨.main (.lidar event), rfl, rfl, ?_⟩
    simp [hs.step_eq, mainStep, hcall, hiff, Lidar.step, hs.lidar, hstep]
  by_cases hidle : s.lidar.owner.pc = .idle
  · rcases hbegins with rfl | rfl
    · exact hmoves .stop _ (by simp [hidle]) (if_pos hidle)
    · exact hmoves (.start (some ())) _ (by simp [hidle]) (if_pos hidle)
  · by_cases hwaits : s.lidar.owner.pc = .stopJoin ∧ s.lidar.worker.pc ≠ .exited
    · exact hs.acquisition_moves hwaits.2 hwaits.1
    · rcases Lidar.ownerStep_enabled options.lidar hidle hs.lidar
        (fun hjoin _ => by_contra fun hlive => hwaits ⟨hjoin, hlive⟩) with
        ⟨event, lidar, hinside, hstep⟩
      refine hmoves event lidar (iff_of_false hidle ?_) hstep
      rcases hbegins with rfl | rfl <;> rintro rfl <;> simp at hinside

theorem Unstuck.server_moves {s : Application} (hs : Unstuck s) (hasked : Asked s.server)
    (hidle : (s.server.calls ()).pc = .idle) {call : OwnerEvent}
    (hcall : serverCall s.pc = some call) (hbegins : call = .stop ∨ call = .start) :
    Moves options s := by
  have hmoves : ∀ event server, (s.server.owner.pc = .idle ↔ call = event) →
      event ≠ .signal .interrupted → s.server.ownerStep event = some server →
      Moves options s := by
    intro event server hiff hquiet hstep
    refine ⟨.main (.server event), rfl, ?_, ?_⟩
    · cases event with
      | signal event => cases event <;> simp at hquiet ⊢
      | _ => rfl
    · simp [hs.step_eq, mainStep, hcall, hiff, TcpServer.step, hs.server, hstep]
  by_cases howner : s.server.owner.pc = .idle
  · rcases hbegins with rfl | rfl
    · exact hmoves .stop _ (by simp [howner]) (by simp) (if_pos howner)
    · exact hmoves .start _ (by simp [howner]) (by simp) (if_pos howner)
  · by_cases hwaits : s.server.owner.pc = .stopJoin ∧ s.server.io.pc ≠ .exited
    · exact hs.io_moves hasked hidle hwaits.2 hwaits.1
    · rcases TcpServer.ownerStep_enabled howner hs.server
        (fun hjoin _ => by_contra fun hlive => hwaits ⟨hjoin, hlive⟩) with
        ⟨event, server, hinside, hquiet, hstep⟩
      refine hmoves event server (iff_of_false howner ?_) hquiet hstep
      rcases hbegins with rfl | rfl <;> rintro rfl <;> simp at hinside

theorem exec_unstuck {capacity : ℕ} {as : List Action} {s : Application}
    (h : exec (step options) (new capacity) as = some s) : Unstuck s := by
  refine @exec_induction _ _ (step options) (new capacity) (fun _ s => Unstuck s)
    (new_unstuck capacity) ?_ _ _ h
  intro as a s t has hs hstep
  rcases exec_tied has with ⟨g, -, htied⟩
  have hcapacity : 0 < s.server.queue.capacity :=
    (exec_invariant (fun _ _ _ hs h => step_stocked hs h) (new_stocked capacity)
      (exec_server has)).capacity_pos
  exact step_unstuck (exec_wired has) htied hcapacity hs hstep

end Application

end AebNode
