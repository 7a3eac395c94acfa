import AebNode.LidarDelivery
import AebNode.LidarShutdown
import AebNode.SectorConsistency
import AebNode.ShutdownOrder

/-! From the beam to the brake. Over a whole run each revolution that saw something is settled
once and in order, and the CAN bus carries the message of each frame that was decided on and
accepted, in that order, and nothing else. -/
namespace AebNode.Application
open Binary32 CommandLine Machine Perception

/-- What becomes of a revolution. Its frame is published, and settled by what the kernel answered
to its brake message or by the exception that ended its callback. -/
inductive Fate
  | grabbed (points : List (ScanPoint ℚ))
  | published (frame : Protocol.Frame)
  | settled (frame : ScanFrame ℚ) (accepts : Option Bool)

/-- The revolutions that saw something. -/
def grabs (w : List Fate) : List (List (ScanPoint ℚ)) :=
  w.filterMap fun
    | .grabbed points => some points
    | _ => none

def settlements (w : List Fate) : List (ScanFrame ℚ × Option Bool) :=
  w.filterMap fun
    | .settled frame accepts => some (frame, accepts)
    | _ => none

def publications (w : List Fate) : List Protocol.Frame :=
  w.filterMap fun
    | .published frame => some frame
    | _ => none

@[simp] theorem grabs_append (w v : List Fate) : grabs (w ++ v) = grabs w ++ grabs v := by
  simp [grabs]

@[simp] theorem settlements_append (w v : List Fate) :
    settlements (w ++ v) = settlements w ++ settlements v := by
  simp [settlements]

@[simp] theorem publications_append (w v : List Fate) :
    publications (w ++ v) = publications w ++ publications v := by
  simp [publications]

@[simp] theorem grabs_grabbed (points : List (ScanPoint ℚ)) :
    grabs [.grabbed points] = [points] := rfl

@[simp] theorem grabs_settled (frame : ScanFrame ℚ) (accepts : Option Bool) :
    grabs [.settled frame accepts] = [] := rfl

@[simp] theorem settlements_grabbed (points : List (ScanPoint ℚ)) :
    settlements [.grabbed points] = [] := rfl

@[simp] theorem settlements_settled (frame : ScanFrame ℚ) (accepts : Option Bool) :
    settlements [.settled frame accepts] = [(frame, accepts)] := rfl

@[simp] theorem grabs_published (frame : Protocol.Frame) : grabs [.published frame] = [] := rfl

@[simp] theorem settlements_published (frame : Protocol.Frame) :
    settlements [.published frame] = [] := rfl

@[simp] theorem publications_grabbed (points : List (ScanPoint ℚ)) :
    publications [.grabbed points] = [] := rfl

@[simp] theorem publications_published (frame : Protocol.Frame) :
    publications [.published frame] = [frame] := rfl

@[simp] theorem publications_settled (frame : ScanFrame ℚ) (accepts : Option Bool) :
    publications [.settled frame accepts] = [] := rfl

/-- The points grabbed whose frame is not settled yet. -/
def unsettled (s : Application) : List (List (ScanPoint ℚ)) :=
  if s.lidar.worker.pc = .deliver ∨
      s.lidar.worker.pc = .inCallback ∧ (s.callback = .publish ∨ s.callback = .decide) then
    [s.lidar.frame.points]
  else []

variable (options : Options)

def fate (s : Application) : Action → List Fate
  | .acquisition (.acquire sdk) =>
    match (s.lidar.device.grabScan options.lidar s.lidar.frame.points sdk).2.2 with
    | .ok () => if sdk.points = [] then [] else [.grabbed sdk.points]
    | .error _ => []
  | .callback (.publish (.call frame)) => [.published frame]
  | .callback (.publish .pushThrows) => [.settled s.lidar.frame none]
  | .callback (.decide accepts) => [.settled s.lidar.frame (some accepts)]
  | _ => []

def fates (capacity : ℕ) (as : List Action) : List Fate :=
  trace (step options) (fate options) (new capacity) as

def brakeFrames (settled : ScanFrame ℚ × Option Bool) : List CanMessage :=
  if options.noCan = false ∧ settled.2 = some true then
    [CanBus.canFrame (brakeMessage (obstacle
      (process options.perception.stored (settled.1.map Value.finite))))]
  else []

/-- The places of the main thread between the success of `can_bus_.open` and `shutdown`. -/
@[simp] def Pc.holdsBus : Pc → Bool
  | .startServer | .constructLidar => true
  | pc => pc.holdsLidar

/-- How the bus and the frame in the thread's hands relate to what has been seen so far. -/
structure Braked (w : List Fate) (s : Application) : Prop where
  opened : options.noCan = false → s.pc.holdsBus = true → s.canBus.isOpen = true
  settled : grabs w = (settlements w).map (fun settled => settled.1.points) ++ s.unsettled
  carried : s.canBus.frames = (settlements w).flatMap (brakeFrames options)

variable {options} {w : List Fate} {v : List Milestone}

theorem new_braked (capacity : ℕ) : Braked options [] (new capacity) where
  opened _ h := by simp [new] at h
  settled := rfl
  carried := rfl

theorem Braked.of_quiet {s t : Application} (hs : Braked options w s)
    (hopened : options.noCan = false → t.pc.holdsBus = true → t.canBus.isOpen = true)
    (hunsettled : t.unsettled = s.unsettled) (hframes : t.canBus.frames = s.canBus.frames) :
    Braked options w t :=
  ⟨hopened, hunsettled ▸ hs.settled, hframes.trans hs.carried⟩

/-! The acquisition thread. -/

/-- A frame is in hand only on the way from its acquisition to the end of its callback. -/
theorem acquisitionStep_event {s t : Lidar Unit} {config : LidarConfig} {event : Lidar.WorkerEvent}
    (h : s.workerStep config event = some t) :
    (s.worker.pc = .acquire → ∃ sdk, event = .acquire sdk) ∧
      (s.worker.pc = .deliver → ∃ now, event = .deliver now) ∧
      (s.worker.pc = .inCallback → ∃ throws, event = .callbackEnds throws) := by
  refine ⟨fun hpc => ?_, fun hpc => ?_, fun hpc => ?_⟩ <;>
    cases event <;> simp [Lidar.workerStep, hpc] at h ⊢

theorem acquire_braked {s t : Application} {sdk : Revolution} (hs : Braked options w s)
    (h : s.acquisitionStep options (.acquire sdk) = some t) :
    Braked options (w ++ fate options s (.acquisition (.acquire sdk))) t := by
  rcases acquisitionStep_spec h with ⟨lidar, callback, hstep, rfl⟩
  rcases Lidar.acquire_cases hstep with ⟨hpc, ⟨message, device, worker, hfailed, hworker, rfl⟩ |
    ⟨device, worker, hgrabbed, hworker, rfl⟩⟩
  · have hquiet : fate options s (.acquisition (.acquire sdk)) = [] := by simp [fate, hfailed]
    rw [hquiet, List.append_nil]
    refine hs.of_quiet hs.opened ?_ rfl
    rcases hworker with hworker | hworker <;> simp [unsettled, hworker, hpc]
  · have hnone : s.unsettled = [] := by simp [unsettled, hpc]
    have hsettled := hs.settled
    rw [hnone, List.append_nil] at hsettled
    by_cases hempty : sdk.points = []
    · have hquiet : fate options s (.acquisition (.acquire sdk)) = [] := by
        simp [fate, hgrabbed, hempty]
      rw [if_pos hempty] at hworker
      rw [hquiet, List.append_nil]
      exact hs.of_quiet hs.opened (by simp [unsettled, hworker, hpc]) rfl
    · have hshown : fate options s (.acquisition (.acquire sdk)) = [.grabbed sdk.points] := by
        simp [fate, hgrabbed, hempty]
      rw [if_neg hempty] at hworker
      rw [hshown]
      refine ⟨hs.opened, ?_, ?_⟩
      · simp [hsettled, unsettled, hworker]
      · simpa using hs.carried

theorem acquisitionStep_braked {s t : Application} {event : Lidar.WorkerEvent}
    (hv : Wired options v s) (hs : Braked options w s)
    (h : s.acquisitionStep options event = some t) :
    Braked options (w ++ fate options s (.acquisition event)) t := by
  by_cases hacquire : ∃ sdk, event = .acquire sdk
  · rcases hacquire with ⟨sdk, rfl⟩
    exact acquire_braked hs h
  have hquiet : fate options s (.acquisition event) = [] := by
    cases event <;> first | rfl | exact absurd ⟨_, rfl⟩ hacquire
  rw [hquiet, List.append_nil]
  cases event
  case acquire sdk => exact absurd ⟨sdk, rfl⟩ hacquire
  case deliver now =>
    simp only [acquisitionStep, Lidar.step, Lidar.workerStep, Option.map_eq_some_iff,
      Option.ite_none_left_eq_some, Option.ite_none_right_eq_some, Option.some.injEq] at h
    rcases h with ⟨_, ⟨-, hpc, rfl⟩, rfl⟩
    have hset := (hv.supervised.live (by simp [hpc])).2.1
    refine hs.of_quiet hs.opened ?_ rfl
    simp [unsettled, Lidar.goto, Lidar.stamped, hset, hpc]
  case callbackEnds throws =>
    simp only [acquisitionStep, Lidar.step, Lidar.workerStep, Option.map_eq_some_iff,
      Option.ite_none_left_eq_some, Option.ite_none_right_eq_some, Option.some.injEq] at h
    rcases h with ⟨hfinished, _, ⟨-, hpc, rfl⟩, rfl⟩
    refine hs.of_quiet hs.opened ?_ rfl
    cases throws <;> simp [unsettled, Lidar.goto, hfinished, hpc]
  all_goals
    rcases acquisitionStep_spec h with ⟨lidar, callback, hstep, rfl⟩
    refine hs.of_quiet hs.opened ?_ rfl
    -- The thread is neither at a place with a frame in hand nor on its way to one.
    have hevent := acquisitionStep_event hstep
    simp only [reduceCtorEq, exists_false, imp_false] at hevent
    have hnext := Lidar.workerStep_next hstep
    have hfrom : lidar.worker.pc ≠ .deliver ∧ lidar.worker.pc ≠ .inCallback := by
      constructor <;> intro hpc <;> rw [hpc] at hnext <;>
        cases hplace : s.lidar.worker.pc <;> simp [hplace, Lidar.WorkerPc.next] at hnext hevent
    simp [unsettled, hfrom, hevent]

/-! The callback. -/

theorem publish_callback {s t : Application} {event : TcpServer.PublishEvent}
    (h : s.callbackStep options (.publish event) = some t) :
    s.lidar.worker.pc = .inCallback ∧ s.callback = .publish ∧ t.lidar = s.lidar ∧
      t.canBus = s.canBus ∧ t.pc = s.pc ∧
      (event = .pushThrows ∧ t.callback = .finished true ∨
        event ≠ .pushThrows ∧ (t.callback = .publish ∨ t.callback = .decide)) := by
  simp only [callbackStep, Option.ite_none_right_eq_some, Option.map_eq_some_iff] at h
  rcases h with ⟨⟨hpc, hcallback, -⟩, server, hserver, rfl⟩
  refine ⟨hpc, hcallback, rfl, rfl, rfl, ?_⟩
  have hstep := (Option.ite_none_left_eq_some.mp hserver).2
  by_cases hthrows : event = .pushThrows
  · subst hthrows
    simp only [TcpServer.publishStep, Option.ite_none_right_eq_some, Option.some.injEq] at hstep
    rcases hstep with ⟨-, rfl⟩
    exact Or.inl ⟨rfl, by simp [TcpServer.setCall, Node.publishResult]⟩
  · have hok : Node.publishResult event = .ok () := by
      cases event <;> first | rfl | exact absurd rfl hthrows
    refine Or.inr ⟨hthrows, ?_⟩
    dsimp only
    rw [hok]
    split_ifs
    · exact Or.inl rfl
    · exact Or.inr rfl

theorem decide_braked {s t : Application} {accepts : Bool} (hv : Wired options v s)
    (hs : Braked options w s)
    (h : s.callbackStep options (.decide accepts) = some t) :
    Braked options (w ++ fate options s (.callback (.decide accepts))) t := by
  simp only [callbackStep, Option.ite_none_right_eq_some, lidarCallback_ok,
    Option.some.injEq] at h
  rcases h with ⟨⟨hpc, hcallback⟩, rfl⟩
  have hplace := (hv.consumersUp (by simp [hpc])).2
  have hheld : s.pc.holdsBus = true := by
    cases hmain : s.pc <;> simp [hmain] at hplace ⊢
  have hunsettled : s.unsettled = [s.lidar.frame.points] := by simp [unsettled, hpc, hcallback]
  refine ⟨fun hcan hmain => ?_, ?_, ?_⟩
  · have hopen := hs.opened hcan hmain
    simpa [hcan, CanBus.isOpen, CanBus.send_spec] using hopen
  · rw [settlements_append, grabs_append, hs.settled, hunsettled]
    simp [fate, unsettled, hpc]
  · cases hcan : options.noCan with
    | true => simp [hs.carried, fate, brakeFrames, hcan]
    | false =>
      rcases Option.isSome_iff_exists.mp (hs.opened hcan hheld) with ⟨fd, hfd⟩
      cases accepts <;> simp [← hs.carried, fate, brakeFrames, hcan, CanBus.send, hfd]

theorem callbackStep_braked {s t : Application} {event : CallbackEvent}
    (hv : Wired options v s) (hs : Braked options w s)
    (h : s.callbackStep options event = some t) :
    Braked options (w ++ fate options s (.callback event)) t := by
  cases event with
  | decide accepts => exact decide_braked hv hs h
  | publish event =>
    rcases publish_callback h with ⟨hpc, hcallback, hlidar, hbus, hmain, hends⟩
    have hopened : options.noCan = false → t.pc.holdsBus = true → t.canBus.isOpen = true := by
      rw [hmain, hbus]
      exact hs.opened
    have hunsettled : s.unsettled = [s.lidar.frame.points] := by simp [unsettled, hpc, hcallback]
    rcases hends with ⟨rfl, hthrown⟩ | ⟨hevent, hgoes⟩
    · refine ⟨hopened, ?_, ?_⟩
      · rw [settlements_append, grabs_append, hs.settled, hunsettled]
        simp [fate, unsettled, hlidar, hpc, hthrown]
      · simp [hbus, hs.carried, fate, brakeFrames]
    · have hshown : grabs (fate options s (.callback (.publish event))) = [] ∧
          settlements (fate options s (.callback (.publish event))) = [] := by
        cases event <;> first | exact ⟨rfl, rfl⟩ | exact absurd rfl hevent
      have hsame : t.unsettled = s.unsettled := by
        rw [hunsettled]
        simp [unsettled, hlidar, hpc, hgoes]
      refine ⟨hopened, ?_, ?_⟩
      · simpa [hshown, hsame] using hs.settled
      · simpa [hshown, hbus] using hs.carried

/-! The main thread. -/

theorem close_frames (bus : CanBus) : bus.close.frames = bus.frames := by
  cases hfd : bus.fd <;> simp [CanBus.close, hfd]

theorem open_frames (config : CanBusConfig) (bus : CanBus) (kernel : CanBringUp) :
    (bus.open config kernel).1.frames = bus.frames := by
  simp only [CanBus.open]
  repeat' split
  all_goals rfl

@[simp] theorem shutdown_frame (s : Application) :
    s.shutdown.lidar = s.lidar ∧ s.shutdown.callback = s.callback ∧
      s.shutdown.canBus = s.canBus := ⟨rfl, rfl, rfl⟩

@[simp] theorem leave_frame (s : Application) :
    s.leave.lidar = s.lidar ∧ s.leave.callback = s.callback ∧ s.leave.canBus = s.canBus := by
  cases hleaving : s.leaving <;> simp [leave, hleaving, shutdown]

/-- A call of the server leaves the lidar and the bus alone, and no failure of it goes on to a
place that uses the bus. -/
theorem serverReturns_frame {s : Application} {event : TcpServer.OwnerEvent}
    (hpc : s.pc = .startServer ∨ s.pc = .stopServer) (hheld : s.hasLidar = false) :
    (s.serverReturns event).lidar = s.lidar ∧ (s.serverReturns event).callback = s.callback ∧
      (s.serverReturns event).canBus = s.canBus ∧
      ((s.serverReturns event).pc.holdsBus = true → s.pc = .startServer) := by
  unfold serverReturns
  rcases hpc with hpc | hpc <;> split_ifs <;> simp_all [shutdown]

theorem lidarReturns_frame (s : Application) (event : Lidar.OwnerEvent Unit) :
    (s.lidarReturns event).lidar.worker = s.lidar.worker ∧
      (s.lidarReturns event).lidar.frame = s.lidar.frame ∧
      (s.lidarReturns event).callback = s.callback ∧
      (s.lidarReturns event).canBus = s.canBus := by
  unfold lidarReturns releaseLidar
  split_ifs <;> simp

theorem unsettled_congr {s t : Application} (hpc : t.lidar.worker.pc = s.lidar.worker.pc)
    (hframe : t.lidar.frame = s.lidar.frame) (hcallback : t.callback = s.callback) :
    t.unsettled = s.unsettled := by
  simp only [unsettled, hpc, hframe, hcallback]

/-- The owner wakes the thread or starts it anew, which puts no frame into its hands. -/
theorem ownerStep_unsettled {s : Application} {lidar : Lidar Unit}
    {event : Lidar.OwnerEvent Unit} (hs : s.lidar.Supervised)
    (h : s.lidar.ownerStep options.lidar event = some lidar) :
    unsettled { s with lidar := lidar } = s.unsettled := by
  rcases Lidar.ownerStep_frame h with ⟨hframe, -, -, hsame | ⟨hblocked, hwoken⟩ |
    ⟨hspawn, hstarted⟩⟩
  · exact unsettled_congr (congrArg Lidar.Worker.pc hsame) hframe rfl
  · simp [unsettled, hblocked, hwoken]
  · have hexited := hs.exited_of_place (by simp [hspawn])
    simp [unsettled, hstarted, hexited]

theorem openCan_braked {s t : Application} {kernel : CanBringUp} (hv : Wired options v s)
    (hs : Braked options w s)
    (h : s.mainStep options (.openCan kernel) = some t) :
    Braked options w t := by
  simp only [mainStep, Option.ite_none_right_eq_some] at h
  rcases h with ⟨hpc, h⟩
  have hclosed : s.canBus.isOpen = false := (hv.place hpc).2.2.2.1
  have hopen := (CanBus.open_spec options.canbus kernel hv.owned hclosed).2
  have hframes := open_frames options.canbus s.canBus kernel
  cases hcan : options.noCan with
  | true =>
    rw [if_pos hcan] at h
    obtain rfl := Option.some.inj h
    exact hs.of_quiet (by simp [hcan]) rfl rfl
  | false =>
    rw [if_neg (by simp [hcan])] at h
    obtain rfl := Option.some.inj h
    cases hok : (s.canBus.open options.canbus kernel).2 with
    | true =>
      simp only [if_true]
      exact hs.of_quiet (fun _ _ => hopen.trans hok) rfl hframes
    | false =>
      simp only [Bool.false_eq_true, if_false]
      exact hs.of_quiet (by simp) rfl hframes

theorem Braked.move {s t : Application} (hs : Braked options w s)
    (hlidar : t.lidar = s.lidar)
    (hcallback : t.callback = s.callback) (hbus : t.canBus = s.canBus)
    (hholds : t.pc.holdsBus = true → s.pc.holdsBus = true) : Braked options w t := by
  refine hs.of_quiet (fun hcan hmain => ?_) ?_ (congrArg CanBus.frames hbus)
  · rw [hbus]
    exact hs.opened hcan (hholds hmain)
  · exact unsettled_congr (by rw [hlidar]) (by rw [hlidar]) hcallback

theorem mainStep_braked {s t : Application} {event : MainEvent} (hv : Wired options v s)
    (hs : Braked options w s)
    (h : s.mainStep options event = some t) :
    Braked options w t := by
  have hheld := hv.held
  cases event with
  | openCan kernel => exact openCan_braked hv hs h
  | closeCan =>
    simp only [mainStep, Option.ite_none_right_eq_some, Option.some.injEq] at h
    rcases h with ⟨hpc, rfl⟩
    refine hs.of_quiet (fun _ hmain => ?_) ?_ ?_
    · rw [hpc] at hheld
      cases hleaving : s.leaving <;>
        simp [leave, hleaving, shutdown, hheld] at hmain
    · exact unsettled_congr (by simp) (by simp) (by simp)
    · simp [close_frames]
  | server event =>
    simp only [mainStep, Option.ite_none_right_eq_some] at h
    rcases h with ⟨⟨hsome, -⟩, h⟩
    rcases Option.map_eq_some_iff.mp h with ⟨server, -, rfl⟩
    have hplace := serverCall_isSome hsome
    have hnone : s.hasLidar = false := by
      rcases hplace with hpc | hpc <;> simp [hheld, hpc]
    rcases @serverReturns_frame { s with
      server := server, listening := s.listeningAfter event } event hplace hnone with
      ⟨hlidar, hcallback, hbus, hholds⟩
    exact hs.move hlidar hcallback hbus fun hmain => by
      rw [show s.pc = .startServer from hholds hmain]
      rfl
  | lidar event =>
    simp only [mainStep, Option.ite_none_right_eq_some] at h
    rcases h with ⟨⟨hsome, -⟩, h⟩
    rcases Option.map_eq_some_iff.mp h with ⟨lidar, hlidar, rfl⟩
    have hstep := (Option.ite_none_left_eq_some.mp hlidar).2
    have hplace : s.pc.holdsBus = true := by
      rcases lidarCall_isSome hsome with hpc | hpc | hpc <;> simp [hpc]
    rcases lidarReturns_frame { s with lidar := lidar } event with
      ⟨hworker, hframe, hcallback, hbus⟩
    refine hs.of_quiet (fun hcan _ => ?_) ?_ (congrArg CanBus.frames hbus)
    · rw [hbus]
      exact hs.opened hcan hplace
    · rw [unsettled_congr (congrArg Lidar.Worker.pc hworker) hframe hcallback]
      exact ownerStep_unsettled hv.supervised hstep
  | constructLidar =>
    simp only [mainStep, Option.ite_none_right_eq_some, Option.some.injEq] at h
    rcases h with ⟨hpc, rfl⟩
    have hexited := (hv.place hpc).2.1.2.exited
    refine hs.of_quiet (fun hcan _ => hs.opened hcan (by simp [hpc])) ?_ rfl
    simp [unsettled, hexited, Lidar.new]
  | destroy =>
    simp only [mainStep, Option.ite_none_right_eq_some, Option.some.injEq] at h
    rcases h with ⟨hpc, rfl⟩
    have hnone : s.hasLidar = false := by simp [hheld, hpc]
    exact hs.move rfl rfl rfl (by simp [shutdown, hnone])
  | run =>
    simp only [mainStep, Option.ite_none_right_eq_some, Option.some.injEq] at h
    rcases h with ⟨hpc, rfl⟩
    exact hs.move rfl rfl rfl (by simp)
  | installSignals succeeds =>
    simp only [mainStep, Option.ite_none_right_eq_some, Option.some.injEq] at h
    rcases h with ⟨hpc, rfl⟩
    cases succeeds <;> exact hs.move rfl rfl rfl (by simp)
  | wait result =>
    simp only [mainStep, Option.ite_none_right_eq_some, Option.some.injEq] at h
    rcases h with ⟨hpc, rfl⟩
    have hholds : s.pc.holdsBus = true := by simp [hpc]
    cases result with
    | signal number => cases number <;> exact hs.move rfl rfl rfl fun _ => hholds
    | interrupted => exact hs
    | timedOut => exact hs.move rfl rfl rfl fun _ => hholds
  | checkRunning =>
    simp only [mainStep, Option.ite_none_right_eq_some, Option.some.injEq] at h
    rcases h with ⟨hpc, rfl⟩
    have hholds : s.pc.holdsBus = true := by simp [hpc]
    split_ifs <;> exact hs.move rfl rfl rfl fun _ => hholds

theorem step_braked {s t : Application} {a : Action} (hv : Wired options v s)
    (hs : Braked options w s) (h : s.step options a = some t) :
    Braked options (w ++ fate options s a) t := by
  have hstep := (Option.ite_none_left_eq_some.mp h).2
  cases a with
  | main event => exact (List.append_nil w).symm ▸ mainStep_braked hv hs hstep
  | acquisition event => exact acquisitionStep_braked hv hs hstep
  | callback event => exact callbackStep_braked hv hs hstep
  | io event =>
    rcases Option.map_eq_some_iff.mp hstep with ⟨server, -, rfl⟩
    exact (List.append_nil w).symm ▸ hs.move rfl rfl rfl id

theorem exec_braked {capacity : ℕ} {as : List Action} {s : Application}
    (h : exec (step options) (new capacity) as = some s) :
    Braked options (fates options capacity as) s := by
  have hkeep : ∀ w (s : Application) a t, (∃ v, Wired options v s) → Braked options w s →
      s.step options a = some t → Braked options (w ++ fate options s a) t :=
    fun _ _ _ _ ⟨_, hv⟩ hs hstep => step_braked hv hs hstep
  exact exec_trace_invariant_reached hkeep (fun bs u hu => ⟨_, exec_wired hu⟩)
    (new_braked capacity) h

/-- What may be decided on a frame: what the perception loop finds, and anything where one of its
conversions is undefined. -/
def Decides (options : Options) (frame : ScanFrame ℚ) (brake : Bool) : Prop :=
  Converts options.perception.stored (frame.map Value.finite).points →
    brake = obstacle (process options.perception.stored (frame.map Value.finite))

def carriedBy (options : Options) (w : List Fate) : List (ScanFrame ℚ × Option Bool) :=
  (settlements w).filter fun settled => options.noCan = false ∧ settled.2 = some true

theorem brakeFrames_decides (settled : List (ScanFrame ℚ × Option Bool)) :
    List.Forall₂
      (fun settled message => ∃ brake, Decides options settled.1 brake ∧
        message = CanBus.canFrame (brakeMessage brake))
      (settled.filter fun settled => options.noCan = false ∧ settled.2 = some true)
      (settled.flatMap (brakeFrames options)) := by
  induction settled with
  | nil => exact .nil
  | cons first settled ih =>
    rw [List.filter_cons, List.flatMap_cons, brakeFrames]
    by_cases hcarried : options.noCan = false ∧ first.2 = some true
    · rw [if_pos (decide_eq_true hcarried), if_pos hcarried]
      exact .cons ⟨_, fun _ => rfl, rfl⟩ ih
    · rw [if_neg (by simpa using hcarried), if_neg hcarried]
      exact ih

/-- Over every run of the application, with any restarts, device faults, throwing calls of
`publish` and refusals of the kernel: each revolution that saw something is settled exactly once
and in order, but for the one in the thread's hands, of which none is left where `run` has
returned; and the bus has carried, in the order of the revolutions, the message of each frame
whose decision the kernel accepted, and nothing else. -/
theorem bus_carries_decisions {capacity : ℕ} {as : List Action} {s : Application}
    (h : exec (step options) (new capacity) as = some s) :
    let seen := fates options capacity as
    grabs seen = (settlements seen).map (fun settled => settled.1.points) ++ s.unsettled ∧
      (s.pc = .outside ∨ s.pc = .destroyed → s.unsettled = []) ∧
      List.Forall₂
        (fun settled message => ∃ brake, Decides options settled.1 brake ∧
          message = CanBus.canFrame (brakeMessage brake))
        (carriedBy options seen) s.canBus.frames := by
  intro seen
  have hseen : Braked options seen s := exec_braked h
  refine ⟨hseen.settled, fun hpc => ?_, ?_⟩
  · have hexited := ((exec_wired h).atRest hpc).lidar.exited
    simp [unsettled, hexited]
  · rw [hseen.carried]
    exact brakeFrames_decides (settlements seen)

def secondRevolutionActions : List Action :=
  Application.startActions ++ ([.callback (.publish .loadConnected), .callback (.publish .discard),
    .callback (.decide true), .acquisition (.callbackEnds false), .acquisition .countDelivered,
    .acquisition .loadStop, .acquisition (.acquire oneReturn)] : List Action)

theorem bus_carries_decisions_pending :
    ∃ s, exec (step {}) (new 4) secondRevolutionActions = some s ∧
      s.canBus.frames = [CanBus.canFrame (brakeMessage false)] ∧
      grabs (fates {} 4 secondRevolutionActions) =
        (settlements (fates {} 4 secondRevolutionActions)).map (fun settled => settled.1.points) ++
          [oneReturn.points] := by
  have hrun : (exec (step {}) (new 4) secondRevolutionActions).map
      (fun s => (s.unsettled, s.canBus.frames)) =
      some ([oneReturn.points], [CanBus.canFrame (brakeMessage false)]) := by
    decide +kernel
  obtain ⟨s, hs, hlast⟩ := Option.map_eq_some_iff.mp hrun
  simp only [Prod.mk.injEq] at hlast
  rcases hlast with ⟨hunsettled, hframes⟩
  exact ⟨s, hs, hframes, hunsettled ▸ (bus_carries_decisions hs).1⟩

end AebNode.Application
