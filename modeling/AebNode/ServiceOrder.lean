import AebNode.ComponentCalls
import AebNode.Supervision

/-! What is noted of a run of the application, and what holds of its components at each place of
the main thread. The acquisition thread, with the callback it runs, and the I/O thread keep it
without regard to where the main thread is. -/
namespace AebNode.Application
open CommandLine Machine

/-- What is noted of a run: the first step of a `stop` or `close`, the last of an `open` or
`start` that succeeds, and every step of the callback. -/
inductive Milestone
  | canOpened
  | canClosing
  | serverStarted
  | serverStopping
  | callback
  deriving DecidableEq, Repr

def Milestone.concernsCan : Milestone → Bool
  | .canOpened | .canClosing => true
  | _ => false

def Milestone.concernsServer : Milestone → Bool
  | .serverStarted | .serverStopping => true
  | _ => false

/-- The bus was opened and its `close` was not called since. -/
def CanUp (w : List Milestone) : Prop := (w.filter Milestone.concernsCan).getLast? = some .canOpened

/-- The server was started and its `stop` was not called since. -/
def ServerUp (w : List Milestone) : Prop :=
  (w.filter Milestone.concernsServer).getLast? = some .serverStarted

def ConsumersUp (noCan : Bool) (w : List Milestone) : Prop :=
  ServerUp w ∧ (noCan = false → CanUp w)

@[simp] theorem canUp_opened (w : List Milestone) : CanUp (w ++ [.canOpened]) := by
  simp [CanUp, Milestone.concernsCan]

@[simp] theorem serverUp_started (w : List Milestone) : ServerUp (w ++ [.serverStarted]) := by
  simp [ServerUp, Milestone.concernsServer]

theorem canUp_other {w : List Milestone} {m : Milestone} (h : m.concernsCan = false) :
    CanUp (w ++ [m]) ↔ CanUp w := by
  simp [CanUp, h]

theorem serverUp_other {w : List Milestone} {m : Milestone} (h : m.concernsServer = false) :
    ServerUp (w ++ [m]) ↔ ServerUp w := by
  simp [ServerUp, h]

variable (options : Options)

def milestone (s : Application) : Action → List Milestone
  | .main (.openCan kernel) =>
    if options.noCan = false ∧ (s.canBus.open options.canbus kernel).2 then [.canOpened] else []
  | .main (.server .stop) => [.serverStopping]
  | .main (.server (.spawn succeeds)) =>
    if succeeds ∧ s.server.joinable = false then [.serverStarted] else []
  | .main .closeCan => [.canClosing]
  | .acquisition (.deliver _) => if s.lidar.callback.isSome then [.callback] else []
  | .acquisition (.callbackEnds _) => [.callback]
  | .callback _ => [.callback]
  | _ => []

def milestones (capacity : ℕ) (as : List Action) : List Milestone :=
  trace (step options) (milestone options) (new capacity) as

/-- Whenever the callback takes a step, its consumers are in service. -/
def Ordered (noCan : Bool) (w : List Milestone) : Prop :=
  ∀ v, v ++ [.callback] <+: w → ConsumersUp noCan v

theorem Ordered.concat {noCan : Bool} {w : List Milestone} {m : Milestone} (hw : Ordered noCan w)
    (hm : m = .callback → ConsumersUp noCan w) : Ordered noCan (w ++ [m]) := by
  intro v hv
  rcases List.prefix_concat_iff.mp hv with heq | hprefix
  · have hsplit := List.append_inj' heq rfl
    rw [hsplit.1]
    exact hm (by simpa using hsplit.2.symm)
  · exact hw v hprefix

/-- No thread of the node is left, and no descriptor or handle of the four components. -/
structure AtRest (s : Application) : Prop where
  lidar : s.lidar.Released
  server : s.server.Released
  listening : s.listening = false
  canBus : s.canBus.isOpen = false
  sockets : s.canBus.sockets = []

/-! What holds of each component at a place of the main thread. -/

def LidarAt : Pc → Lidar Unit → Prop
  | .startLidar, lidar =>
    (lidar.owner.pc.stops = true → lidar.owner.pc = .idle) ∧ lidar.joinable = false
  | .waitSignal, lidar | .checkRunning, lidar => lidar.owner.pc = .idle
  | .stopLidar, lidar | .destroyLidar, lidar => lidar.owner.pc.stops = true
  | _, lidar => lidar.owner.pc = .idle ∧ lidar.Released

def ServerAt : Pc → TcpServer Unit → Bool → Prop
  | .startServer, server, _ => server.owner.pc.stops = true → server.owner.pc = .idle
  | .constructLidar, server, _ | .startLidar, server, _ | .waitSignal, server, _
  | .checkRunning, server, _ | .stopLidar, server, _ | .destroyLidar, server, _ =>
    server.owner.pc = .idle
  | .stopServer, server, listening =>
    server.owner.pc.stops = true ∧ (server.owner.pc.joined = true → listening = false)
  | _, server, listening =>
    server.owner.pc = .idle ∧ server.Released ∧ listening = false

def CanAt : Pc → CanBus → Prop
  | .outside, bus | .installSignals, bus | .openCan, bus | .destroyed, bus => bus.isOpen = false
  | _, _ => True

def MilestonesAt (noCan : Bool) : Pc → List Milestone → Prop
  | .startServer, w => noCan = false → CanUp w
  | .constructLidar, w | .startLidar, w | .waitSignal, w | .checkRunning, w | .stopLidar, w
  | .destroyLidar, w => ConsumersUp noCan w
  | _, _ => True

@[simp] def Pc.holdsLidar : Pc → Bool
  | .startLidar | .waitSignal | .checkRunning | .stopLidar | .destroyLidar => true
  | _ => false

structure Wired (w : List Milestone) (s : Application) : Prop where
  supervised : s.lidar.Supervised
  lifecycle : s.server.Lifecycle
  lidarWinding : s.lidar.Winding
  serverWinding : s.server.Winding
  owned : s.canBus.Owned
  held : s.hasLidar = s.pc.holdsLidar
  lidar : LidarAt s.pc s.lidar
  server : ServerAt s.pc s.server s.listening
  canBus : CanAt s.pc s.canBus
  reached : MilestonesAt options.noCan s.pc w
  ordered : Ordered options.noCan w

variable {options} {w : List Milestone}

theorem new_wired (capacity : ℕ) : Wired options [] (new capacity) where
  supervised := Lidar.new_supervised
  lifecycle := TcpServer.new_lifecycle capacity
  lidarWinding := .of_before rfl
  serverWinding h := by simp [new, TcpServer.new] at h
  owned := rfl
  held := rfl
  lidar := ⟨rfl, Lidar.new_released⟩
  server := ⟨rfl, TcpServer.new_released capacity, rfl⟩
  canBus := rfl
  reached := trivial
  ordered v hv := by simp at hv

/-- Where the acquisition thread may live, the consumers are in service. -/
theorem Wired.consumersUp {s : Application} (hs : Wired options w s)
    (hlive : s.lidar.worker.pc ≠ .exited) :
    ConsumersUp options.noCan w ∧ s.pc.holdsLidar = true := by
  have hlidar := hs.lidar
  have hreached := hs.reached
  cases hpc : s.pc <;> simp only [hpc, LidarAt, MilestonesAt] at hlidar hreached
  case startLidar | waitSignal | checkRunning | stopLidar | destroyLidar => exact ⟨hreached, rfl⟩
  all_goals exact absurd hlidar.2.exited hlive

theorem MilestonesAt.callback {noCan : Bool} {pc : Pc} (h : MilestonesAt noCan pc w) :
    MilestonesAt noCan pc (w ++ [.callback]) := by
  have hcan : CanUp (w ++ [.callback]) ↔ CanUp w := canUp_other rfl
  have hserver : ServerUp (w ++ [.callback]) ↔ ServerUp w := serverUp_other rfl
  cases pc <;> simp only [MilestonesAt, ConsumersUp, hcan, hserver] at h ⊢ <;> exact h

theorem Wired.callback {s : Application} (hs : Wired options w s)
    (hup : ConsumersUp options.noCan w) : Wired options (w ++ [.callback]) s :=
  { hs with
    reached := hs.reached.callback
    ordered := hs.ordered.concat fun _ => hup }

/-! Steps of the other threads leave the place of the main thread and its calls alone. -/

theorem LidarAt.of_owner {pc : Pc} {lidar lidar' : Lidar Unit} (h : LidarAt pc lidar)
    (howner : lidar'.owner = lidar.owner) (hjoinable : lidar'.joinable = lidar.joinable)
    (hreleased : lidar.Released → lidar'.Released) : LidarAt pc lidar' := by
  cases pc <;> simp only [LidarAt, howner, hjoinable] at h ⊢
  case startLidar | waitSignal | checkRunning | stopLidar | destroyLidar => exact h
  all_goals exact ⟨h.1, hreleased h.2⟩

theorem ServerAt.of_owner {pc : Pc} {server server' : TcpServer Unit} {listening : Bool}
    (h : ServerAt pc server listening) (howner : server'.owner = server.owner)
    (hreleased : server.Released → server'.Released) : ServerAt pc server' listening := by
  cases pc <;> simp only [ServerAt, howner] at h ⊢
  case outside | installSignals | openCan | closeCan | destroyed | terminated =>
    exact ⟨h.1, hreleased h.2.1, h.2.2⟩
  all_goals exact h

theorem acquisitionStep_spec {s t : Application} {event : Lidar.WorkerEvent}
    (h : s.acquisitionStep options event = some t) :
    ∃ lidar callback, s.lidar.workerStep options.lidar event = some lidar ∧
      t = { s with lidar := lidar, callback := callback } := by
  have hstep : ∀ {lidar}, s.lidar.step options.lidar (.worker event) = some lidar →
      s.lidar.workerStep options.lidar event = some lidar := fun h =>
    (Option.ite_none_left_eq_some.mp h).2
  cases event
  case deliver now =>
    rcases Option.map_eq_some_iff.mp h with ⟨lidar, hlidar, rfl⟩
    exact ⟨lidar, _, hstep hlidar, rfl⟩
  case callbackEnds throws =>
    simp only [acquisitionStep, Option.ite_none_right_eq_some] at h
    rcases Option.map_eq_some_iff.mp h.2 with ⟨lidar, hlidar, rfl⟩
    exact ⟨lidar, _, hstep hlidar, rfl⟩
  all_goals
    rcases Option.map_eq_some_iff.mp h with ⟨lidar, hlidar, rfl⟩
    exact ⟨lidar, _, hstep hlidar, rfl⟩

theorem callbackStep_spec {s t : Application} {event : CallbackEvent}
    (h : s.callbackStep options event = some t) :
    s.lidar.worker.pc = .inCallback ∧ ∃ server canBus callback,
      (server = s.server ∨ ∃ event, s.server.publishStep () event = some server) ∧
      canBus.fd = s.canBus.fd ∧ canBus.sockets = s.canBus.sockets ∧
      t = { s with server := server, canBus := canBus, callback := callback } := by
  cases event with
  | publish event =>
    simp only [callbackStep, Option.ite_none_right_eq_some] at h
    rcases h with ⟨⟨hpc, -, -⟩, h⟩
    rcases Option.map_eq_some_iff.mp h with ⟨server, hserver, rfl⟩
    exact ⟨hpc, server, s.canBus, _, Or.inr ⟨event, (Option.ite_none_left_eq_some.mp hserver).2⟩,
      rfl, rfl, rfl⟩
  | decide accepts =>
    simp only [callbackStep, Option.ite_none_right_eq_some, lidarCallback_ok,
      Option.some.injEq] at h
    rcases h with ⟨⟨hpc, -⟩, rfl⟩
    refine ⟨hpc, s.server, _, _, Or.inl rfl, ?_, ?_, rfl⟩
    · cases options.noCan <;> simp [CanBus.send_spec]
    · cases options.noCan <;> simp [CanBus.send_spec]

/-- The callback uses the server and the bus, and opens and closes neither. -/
theorem callbackStep_wired {s t : Application} {event : CallbackEvent} (hs : Wired options w s)
    (h : s.callbackStep options event = some t) :
    Wired options (w ++ milestone options s (.callback event)) t := by
  rcases callbackStep_spec h with ⟨hpc, server, canBus, callback, hserver, hfd, hsockets, rfl⟩
  have hup := (hs.consumersUp (by simp [hpc])).1
  have howned : canBus.Owned := by
    rw [CanBus.Owned, hsockets, hfd]
    exact hs.owned
  have hcan : CanAt s.pc canBus := by
    have hopen : canBus.isOpen = s.canBus.isOpen := by simp [CanBus.isOpen, hfd]
    have hat := hs.canBus
    cases hplace : s.pc <;> simp only [hplace, CanAt, hopen] at hat ⊢ <;> exact hat
  apply Wired.callback _ hup
  rcases hserver with rfl | ⟨publish, hstep⟩
  · exact { hs with owned := howned, canBus := hcan }
  · rcases TcpServer.publishStep_frame hstep with ⟨-, -, hio, howner, -, hjoinable⟩
    have hvalid := (TcpServer.publishStep_caller hstep).valid
    have hreleased : s.server.Released → server.Released := fun hr =>
      ⟨hio ▸ hr.exited, hjoinable.trans hr.joined, hvalid.trans hr.closed⟩
    have hwinding : server.Winding := fun hj =>
      hjoinable.trans (hs.serverWinding (howner ▸ hj))
    exact { hs with
      lifecycle := TcpServer.publishStep_lifecycle hs.lifecycle hstep
      serverWinding := hwinding
      owned := howned
      server := hs.server.of_owner howner hreleased
      canBus := hcan }

theorem ioStep_wired {s : Application} {server : TcpServer Unit} {event : TcpServer.IoEvent}
    (hs : Wired options w s) (h : s.server.ioStep event = some server) :
    Wired options w { s with server := server } := by
  rcases TcpServer.ioStep_threads h with ⟨-, howner, -, hjoinable⟩
  have hlive := (TcpServer.ioStep_running h).1
  have hwinding : server.Winding := fun hj =>
    hjoinable.trans (hs.serverWinding (howner ▸ hj))
  exact { hs with
    lifecycle := TcpServer.ioStep_lifecycle hs.lifecycle h
    serverWinding := hwinding
    server := hs.server.of_owner howner fun hr => absurd hr.exited hlive }

theorem acquisitionStep_wired {s t : Application} {event : Lidar.WorkerEvent}
    (hs : Wired options w s) (h : s.acquisitionStep options event = some t) :
    Wired options (w ++ milestone options s (.acquisition event)) t := by
  rcases acquisitionStep_spec h with ⟨lidar, callback, hstep, rfl⟩
  rcases Lidar.workerStep_frame hstep with ⟨hlive, -, howner, hjoinable, -⟩
  rcases hs.consumersUp hlive with ⟨hup, -⟩
  have hquiet : milestone options s (.acquisition event) = [] ∨
      milestone options s (.acquisition event) = [.callback] := by
    cases event <;> simp [milestone]
    cases s.lidar.callback <;> simp
  have hlidar : LidarAt s.pc lidar :=
    hs.lidar.of_owner howner hjoinable fun hreleased => absurd hreleased.exited hlive
  have hsame : Wired options w { s with lidar := lidar, callback := callback } :=
    { hs with
      supervised := Lidar.workerStep_supervised hs.supervised hstep
      lidarWinding := Lidar.workerStep_winding hs.lidarWinding hstep
      lidar := hlidar }
  rcases hquiet with hnone | hone
  · rw [hnone, List.append_nil]
    exact hsame
  · rw [hone]
    exact hsame.callback hup

end AebNode.Application
