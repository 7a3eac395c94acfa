import AebNode.BrakingTrace
import AebNode.StreamDelivery

/-! From the beam to the screen. The server inside a run of the application takes a run of its
own, so what its readers show can be told from what the acquisition thread has settled: no frame
is shown that the brake was not, or is not about to be, decided on. -/
namespace AebNode.Application
open CommandLine Machine Perception Protocol TcpServer

/-- The step the server takes in a step of the application. -/
def serverAction : Action → Option (TcpServer.Action Unit)
  | .main (.server event) => some (.owner event)
  | .callback (.publish event) => some (.publish () event)
  | .io event => some (.io event)
  | _ => none

def decided (w : List Fate) : List (ScanFrame ℚ) :=
  (settlements w).filterMap fun settled => settled.2.map fun _ => settled.1

@[simp] theorem decided_append (w v : List Fate) : decided (w ++ v) = decided w ++ decided v := by
  simp [decided]

@[simp] theorem decided_grabbed (points : List (ScanPoint ℚ)) :
    decided [.grabbed points] = [] := rfl

@[simp] theorem decided_published (frame : Frame) : decided [.published frame] = [] := rfl

def inPublish (s : Application) : List (ScanFrame ℚ) :=
  if s.lidar.worker.pc = .inCallback ∧
      (s.callback = .publish ∧ (s.server.calls ()).pc ≠ .idle ∨ s.callback = .decide) then
    [s.lidar.frame]
  else []

/-- The frame in delivery, once its decision can no longer be missed. -/
def undecided (s : Application) : List (ScanFrame ℚ) :=
  if s.lidar.worker.pc = .inCallback ∧
      (s.callback = .publish ∧ (s.server.calls ()).pc ≠ .idle ∧
        (s.server.calls ()).pc.beforePush = false ∨ s.callback = .decide) then
    [s.lidar.frame]
  else []

variable {options : Options} {w : List Fate} {v : List Milestone}

/-! The server takes its own steps. -/

@[simp] theorem leave_server (s : Application) : s.leave.server = s.server := by
  cases hleaving : s.leaving <;> simp [leave, hleaving, shutdown]

theorem serverReturns_server (s : Application) (event : TcpServer.OwnerEvent) :
    (s.serverReturns event).server = s.server := by
  unfold serverReturns
  split_ifs <;> rfl

theorem lidarReturns_server (s : Application) (event : Lidar.OwnerEvent Unit) :
    (s.lidarReturns event).server = s.server := by
  unfold lidarReturns releaseLidar
  split_ifs <;> rfl

theorem mainStep_server {s t : Application} {event : MainEvent}
    (h : s.mainStep options event = some t) :
    match event with
    | .server event => s.server.step (.owner event) = some t.server
    | _ => t.server = s.server := by
  cases event with
  | server event =>
    simp only [mainStep, Option.ite_none_right_eq_some] at h
    rcases Option.map_eq_some_iff.mp h.2 with ⟨server, hserver, rfl⟩
    simpa [serverReturns_server] using hserver
  | lidar event =>
    simp only [mainStep, Option.ite_none_right_eq_some] at h
    rcases Option.map_eq_some_iff.mp h.2 with ⟨lidar, -, rfl⟩
    exact lidarReturns_server _ _
  | openCan kernel =>
    simp only [mainStep, Option.ite_none_right_eq_some] at h
    rcases h with ⟨-, h⟩
    split_ifs at h <;> obtain rfl := Option.some.inj h <;> rfl
  | installSignals succeeds =>
    simp only [mainStep, Option.ite_none_right_eq_some, Option.some.injEq] at h
    rcases h with ⟨-, rfl⟩
    cases succeeds <;> rfl
  | wait result =>
    simp only [mainStep, Option.ite_none_right_eq_some, Option.some.injEq] at h
    rcases h with ⟨-, rfl⟩
    cases result with
    | signal number => cases number <;> rfl
    | interrupted => rfl
    | timedOut => rfl
  | checkRunning =>
    simp only [mainStep, Option.ite_none_right_eq_some, Option.some.injEq] at h
    rcases h with ⟨-, rfl⟩
    split_ifs <;> rfl
  | closeCan =>
    simp only [mainStep, Option.ite_none_right_eq_some, Option.some.injEq] at h
    rcases h with ⟨-, rfl⟩
    exact leave_server _
  | _ =>
    simp only [mainStep, Option.ite_none_right_eq_some, Option.some.injEq] at h
    rcases h with ⟨-, rfl⟩
    rfl

theorem callbackStep_server {s t : Application} {event : CallbackEvent}
    (h : s.callbackStep options event = some t) :
    match event with
    | .publish event => s.server.step (.publish () event) = some t.server
    | .decide _ => t.server = s.server := by
  cases event with
  | publish event =>
    simp only [callbackStep, Option.ite_none_right_eq_some] at h
    rcases Option.map_eq_some_iff.mp h.2 with ⟨server, hserver, rfl⟩
    exact hserver
  | decide accepts =>
    simp only [callbackStep, Option.ite_none_right_eq_some, lidarCallback_ok,
      Option.some.injEq] at h
    rcases h with ⟨-, rfl⟩
    rfl

theorem step_server {s t : Application} {a : Action} (h : s.step options a = some t) :
    (serverAction a).elim (t.server = s.server) fun b => s.server.step b = some t.server := by
  have hstep := (Option.ite_none_left_eq_some.mp h).2
  cases a with
  | main event => cases event <;> exact mainStep_server hstep
  | callback event => cases event <;> exact callbackStep_server hstep
  | acquisition event =>
    rcases acquisitionStep_spec hstep with ⟨lidar, callback, -, rfl⟩
    rfl
  | io event =>
    rcases Option.map_eq_some_iff.mp hstep with ⟨server, hserver, rfl⟩
    exact hserver

/-! What the main thread and the I/O thread leave alone. -/

structure SameDelivery (s t : Application) : Prop where
  place : t.lidar.worker.pc = .inCallback ↔ s.lidar.worker.pc = .inCallback
  frame : s.lidar.worker.pc = .inCallback → t.lidar.frame = s.lidar.frame
  callback : t.callback = s.callback
  calls : t.server.calls = s.server.calls

theorem SameDelivery.of_lidar {s t : Application} (hlidar : t.lidar = s.lidar)
    (hcallback : t.callback = s.callback) (hcalls : t.server.calls = s.server.calls) :
    SameDelivery s t :=
  ⟨by rw [hlidar], fun _ => by rw [hlidar], hcallback, hcalls⟩

theorem SameDelivery.inPublish {s t : Application} (h : SameDelivery s t) :
    t.inPublish = s.inPublish := by
  rcases h with ⟨hplace, hframe, hcallback, hcalls⟩
  by_cases hin : s.lidar.worker.pc = .inCallback
  · simp [Application.inPublish, hin, hplace.mpr hin, hframe hin, hcallback, hcalls]
  · simp [Application.inPublish, hin, mt hplace.mp hin]

theorem SameDelivery.undecided {s t : Application} (h : SameDelivery s t) :
    t.undecided = s.undecided := by
  rcases h with ⟨hplace, hframe, hcallback, hcalls⟩
  by_cases hin : s.lidar.worker.pc = .inCallback
  · simp [Application.undecided, hin, hplace.mpr hin, hframe hin, hcallback, hcalls]
  · simp [Application.undecided, hin, mt hplace.mp hin]

theorem mainStep_delivery {s t : Application} {event : MainEvent} (hv : Wired options v s)
    (h : s.mainStep options event = some t) : SameDelivery s t := by
  cases event with
  | server event =>
    simp only [mainStep, Option.ite_none_right_eq_some] at h
    rcases h with ⟨⟨hsome, -⟩, h⟩
    rcases Option.map_eq_some_iff.mp h with ⟨server, hserver, rfl⟩
    have hnone : s.hasLidar = false := by
      rcases serverCall_isSome hsome with hpc | hpc <;> simp [hv.held, hpc]
    rcases @serverReturns_frame { s with
      server := server, listening := s.listeningAfter event } event (serverCall_isSome hsome)
      hnone with ⟨hlidar, hcallback, -, -⟩
    refine .of_lidar hlidar hcallback ?_
    rw [serverReturns_server]
    exact (ownerStep_frame (Option.ite_none_left_eq_some.mp hserver).2).2.2.2.1
  | lidar event =>
    simp only [mainStep, Option.ite_none_right_eq_some] at h
    rcases Option.map_eq_some_iff.mp h.2 with ⟨lidar, hlidar, rfl⟩
    have hstep := (Option.ite_none_left_eq_some.mp hlidar).2
    rcases lidarReturns_frame { s with lidar := lidar } event with
      ⟨hworker, hframe, hcallback, -⟩
    rcases Lidar.ownerStep_frame hstep with ⟨hkept, -, -, hplace⟩
    refine ⟨?_, fun _ => hframe.trans hkept, hcallback, by rw [lidarReturns_server]⟩
    rw [hworker]
    rcases hplace with hsame | ⟨hblocked, hwoken⟩ | ⟨hspawn, hstarted⟩
    · exact iff_of_eq (congrArg (fun worker => worker.pc = .inCallback) hsame)
    · simp [hblocked, hwoken]
    · have hexited := hv.supervised.exited_of_place (by simp [hspawn])
      simp [hstarted, hexited]
  | constructLidar =>
    simp only [mainStep, Option.ite_none_right_eq_some, Option.some.injEq] at h
    rcases h with ⟨hpc, rfl⟩
    have hexited := (hv.place hpc).2.1.2.exited
    exact ⟨by simp [hexited, Lidar.new], by simp [hexited], rfl, rfl⟩
  | openCan kernel =>
    simp only [mainStep, Option.ite_none_right_eq_some] at h
    rcases h with ⟨-, h⟩
    split_ifs at h <;> obtain rfl := Option.some.inj h <;> exact .of_lidar rfl rfl rfl
  | installSignals succeeds =>
    simp only [mainStep, Option.ite_none_right_eq_some, Option.some.injEq] at h
    rcases h with ⟨-, rfl⟩
    cases succeeds <;> exact .of_lidar rfl rfl rfl
  | wait result =>
    simp only [mainStep, Option.ite_none_right_eq_some, Option.some.injEq] at h
    rcases h with ⟨-, rfl⟩
    cases result with
    | signal number => cases number <;> exact .of_lidar rfl rfl rfl
    | interrupted => exact .of_lidar rfl rfl rfl
    | timedOut => exact .of_lidar rfl rfl rfl
  | checkRunning =>
    simp only [mainStep, Option.ite_none_right_eq_some, Option.some.injEq] at h
    rcases h with ⟨-, rfl⟩
    split_ifs <;> exact .of_lidar rfl rfl rfl
  | closeCan =>
    simp only [mainStep, Option.ite_none_right_eq_some, Option.some.injEq] at h
    rcases h with ⟨-, rfl⟩
    exact .of_lidar (by simp) (by simp) (by simp)
  | _ =>
    simp only [mainStep, Option.ite_none_right_eq_some, Option.some.injEq] at h
    rcases h with ⟨-, rfl⟩
    exact .of_lidar rfl rfl rfl

/-! The call of `publish` in the callback. -/

def pushing (s : Application) : List Frame :=
  if (s.server.calls ()).pc.beforePush then [(s.server.calls ()).frame] else []

/-- How the call of `publish`, the frames it has put into the queue and what the acquisition
thread has settled hang together. -/
structure Tied (w : List Fate) (g : History Unit) (s : Application) : Prop where
  calling : (s.server.calls ()).pc ≠ .idle → s.lidar.worker.pc = .inCallback ∧
    s.callback = .publish ∧ (s.server.calls ()).frame.map floatValue = s.lidar.frame
  published : (publications w).map (fun frame => frame.map floatValue) =
    (settlements w).map Prod.fst ++ s.inPublish
  entered : (g.entered.map fun e => e.frame.map floatValue).Sublist (decided w ++ s.undecided)
  called : (g.entered.map Entry.frame ++ s.pushing).Sublist (publications w)

theorem new_tied (capacity : ℕ) : Tied [] {} (new capacity) where
  calling h := absurd rfl h
  published := rfl
  entered := List.nil_sublist _
  called := by simp [pushing, new, TcpServer.new, PublishPc.beforePush]

variable {g : History Unit}

theorem Tied.of_same {s t : Application} {h : History Unit} (hs : Tied w g s)
    (hsame : SameDelivery s t) (hentered : h.entered = g.entered) : Tied w h t where
  calling hcall := by
    rw [hsame.calls] at hcall ⊢
    rcases hs.calling hcall with ⟨hpc, hcallback, hframe⟩
    exact ⟨hsame.place.mpr hpc, hsame.callback.trans hcallback,
      hframe.trans (hsame.frame hpc).symm⟩
  published := hsame.inPublish ▸ hs.published
  entered := by
    rw [hentered, hsame.undecided]
    exact hs.entered
  called := by
    rw [hentered, pushing, hsame.calls]
    exact hs.called

theorem acquisitionStep_begins {s t : Application} {event : Lidar.WorkerEvent}
    (h : s.acquisitionStep options event = some t) (hpc : t.lidar.worker.pc = .inCallback) :
    t.callback = .publish := by
  rcases acquisitionStep_spec h with ⟨lidar, callback, hstep, rfl⟩
  have hnext := Lidar.workerStep_next hstep
  have hfrom : s.lidar.worker.pc = .deliver := by
    rw [show lidar.worker.pc = .inCallback from hpc] at hnext
    cases hplace : s.lidar.worker.pc <;> simp [hplace, Lidar.WorkerPc.next] at hnext ⊢
  rcases (acquisitionStep_event hstep).2.1 hfrom with ⟨now, rfl⟩
  rcases Option.map_eq_some_iff.mp h with ⟨lidar', -, heq⟩
  rw [← heq]

/-- The acquisition thread moves on its own only while no call of `publish` is under way. -/
theorem acquisitionStep_delivery {s t : Application} {event : Lidar.WorkerEvent}
    (hs : Tied w g s) (h : s.acquisitionStep options event = some t) :
    (s.server.calls ()).pc = .idle ∧ t.server = s.server ∧ s.inPublish = [] ∧
      s.undecided = [] ∧ t.inPublish = [] ∧ t.undecided = [] := by
  have hends : s.lidar.worker.pc = .inCallback → ∃ throws, s.callback = .finished throws := by
    intro hpc
    rcases acquisitionStep_spec h with ⟨lidar, callback, hstep, -⟩
    rcases (acquisitionStep_event hstep).2.2 hpc with ⟨throws, rfl⟩
    simp only [acquisitionStep, Option.ite_none_right_eq_some] at h
    exact ⟨throws, h.1⟩
  have hbegins : t.lidar.worker.pc = .inCallback → t.callback = .publish :=
    acquisitionStep_begins h
  have hidle : (s.server.calls ()).pc = .idle := by
    by_contra hcall
    rcases hs.calling hcall with ⟨hpc, hcallback, -⟩
    rcases hends hpc with ⟨throws, hfinished⟩
    simp [hcallback] at hfinished
  have hserver : t.server = s.server := by
    rcases acquisitionStep_spec h with ⟨lidar, callback, -, rfl⟩
    rfl
  refine ⟨hidle, hserver, ?_, ?_, ?_, ?_⟩
  · by_cases hpc : s.lidar.worker.pc = .inCallback
    · rcases hends hpc with ⟨throws, hfinished⟩
      simp [inPublish, hfinished]
    · simp [inPublish, hpc]
  · by_cases hpc : s.lidar.worker.pc = .inCallback
    · rcases hends hpc with ⟨throws, hfinished⟩
      simp [undecided, hfinished]
    · simp [undecided, hpc]
  · by_cases hpc : t.lidar.worker.pc = .inCallback
    · simp [inPublish, hbegins hpc, hserver, hidle]
    · simp [inPublish, hpc]
  · by_cases hpc : t.lidar.worker.pc = .inCallback
    · simp [undecided, hbegins hpc, hserver, hidle]
    · simp [undecided, hpc]

theorem acquisitionStep_tied {s t : Application} {event : Lidar.WorkerEvent} (hs : Tied w g s)
    (h : s.acquisitionStep options event = some t) :
    Tied (w ++ fate options s (.acquisition event)) g t := by
  rcases acquisitionStep_delivery hs h with
    ⟨hidle, hserver, hpublish, hundecided, hpublish', hundecided'⟩
  have hquiet : fate options s (.acquisition event) = [] ∨
      ∃ points, fate options s (.acquisition event) = [.grabbed points] := by
    cases event <;> simp only [fate, true_or]
    split
    · split_ifs <;> simp
    · exact Or.inl rfl
  have hidle' : (t.server.calls ()).pc = .idle := hserver ▸ hidle
  have hsame : t.pushing = s.pushing := by rw [pushing, hserver, pushing]
  have hpublished := hs.published
  have hentered := hs.entered
  have hcalled := hs.called
  rw [hpublish] at hpublished
  rw [hundecided] at hentered
  rcases hquiet with hquiet | ⟨points, hquiet⟩ <;> rw [hquiet] <;>
    exact ⟨fun hcall => absurd hidle' hcall, by simpa [hpublish'] using hpublished,
      by simpa [hundecided'] using hentered, by simpa [hsame] using hcalled⟩

/-- A step of `publish` in the callback leaves the frame alone; behind its last step, perception
is next unless it threw. -/
theorem publishStep_spec {s t : Application} {event : PublishEvent}
    (h : s.callbackStep options (.publish event) = some t) :
    s.server.publishStep () event = some t.server ∧ carries s.lidar.frame event = true ∧
      s.lidar.worker.pc = .inCallback ∧ s.callback = .publish ∧ t.lidar = s.lidar ∧
      ((t.server.calls ()).pc ≠ .idle → t.callback = .publish) ∧
      ((t.server.calls ()).pc = .idle →
        t.callback = if event = .pushThrows then .finished true else .decide) := by
  simp only [callbackStep, Option.ite_none_right_eq_some, Option.map_eq_some_iff] at h
  rcases h with ⟨⟨hpc, hcallback, hcarries⟩, server, hserver, rfl⟩
  refine ⟨(Option.ite_none_left_eq_some.mp hserver).2, hcarries, hpc, hcallback, rfl,
    fun hbusy => if_pos hbusy, fun hidle => ?_⟩
  dsimp only at hidle ⊢
  rw [if_neg (by simp [hidle])]
  cases event <;> rfl

/-- The three lists while a call of `publish` is under way. -/
theorem publishing {s : Application} (hpc : s.lidar.worker.pc = .inCallback)
    (hcallback : s.callback = .publish) (hbusy : (s.server.calls ()).pc ≠ .idle) :
    s.inPublish = [s.lidar.frame] ∧
      s.undecided = if (s.server.calls ()).pc.beforePush then [] else [s.lidar.frame] := by
  cases hbefore : (s.server.calls ()).pc.beforePush <;>
    simp [inPublish, undecided, hpc, hcallback, hbusy, hbefore]

theorem call_tied {s t : Application} {frame : Frame} (hs : Tied w g s)
    (h : s.callbackStep options (.publish (.call frame)) = some t) :
    Tied (w ++ [.published frame]) (record s.server g (.publish () (.call frame))) t := by
  rcases publishStep_spec h with ⟨hserver, hcarries, hpc, hcallback, hlidar, hbusy, -⟩
  simp only [publishStep, Option.ite_none_right_eq_some, Option.some.injEq] at hserver
  rcases hserver with ⟨hidle, hnext⟩
  have hcall : t.server.calls () = { pc := .loadConnected, frame := frame } := by
    rw [← hnext]
    simp [setCall]
  have hplace : (t.server.calls ()).pc ≠ .idle := by simp [hcall]
  have hvalue : frame.map floatValue = s.lidar.frame := by simpa [carries] using hcarries
  rcases publishing (hlidar ▸ hpc) (hbusy hplace) hplace with ⟨hpublish, hundecided⟩
  rw [hlidar] at hpublish
  have hpublished := hs.published
  have hentered := hs.entered
  have hcalled := hs.called
  rw [show s.inPublish = [] by simp [inPublish, hcallback, hidle]] at hpublished
  rw [show s.undecided = [] by simp [undecided, hcallback, hidle]] at hentered
  rw [show s.pushing = [] by simp [pushing, hidle, PublishPc.beforePush]] at hcalled
  refine ⟨fun _ => ⟨hlidar ▸ hpc, hbusy hplace, by rw [hcall, hlidar, hvalue]⟩, ?_, ?_, ?_⟩
  · simp [hpublished, hpublish, hvalue]
  · simpa [record, recordPublish, hundecided, hcall, PublishPc.beforePush] using hentered
  · simpa [record, recordPublish, pushing, hcall, PublishPc.beforePush] using hcalled

theorem push_tied {s t : Application} (hs : Tied w g s) (hcalls : CallInvariant s.server g)
    (h : s.callbackStep options (.publish .push) = some t) :
    Tied w (record s.server g (.publish () .push)) t := by
  rcases publishStep_spec h with ⟨hserver, -, hpc, hcallback, hlidar, hbusy, -⟩
  simp only [publishStep, Option.ite_none_right_eq_some, Option.some.injEq] at hserver
  rcases hserver with ⟨hpush, hnext⟩
  have hcall : (t.server.calls ()).pc ≠ .idle ∧ (t.server.calls ()).pc.beforePush = false ∧
      (t.server.calls ()).frame = (s.server.calls ()).frame := by
    rw [← hnext]
    simp only [setCall, Function.update_self]
    split_ifs <;> simp [PublishPc.beforePush]
  rcases hcall with ⟨hplace, hpushed, hframe⟩
  have hvalue := (hs.calling (by simp [hpush])).2.2
  have hrunning : (g.running ()).frame = (s.server.calls ()).frame :=
    (hcalls.frame () (by simp [hpush, PublishPc.beforePush])).symm
  rcases publishing hpc hcallback (by simp [hpush]) with ⟨hpublish, hundecided⟩
  rcases publishing (hlidar ▸ hpc) (hbusy hplace) hplace with ⟨hpublish', hundecided'⟩
  rw [hpush] at hundecided
  rw [hpushed] at hundecided'
  have hentered := hs.entered
  have hcalled := hs.called
  rw [hundecided] at hentered
  rw [show s.pushing = [(s.server.calls ()).frame] by
    simp [pushing, hpush, PublishPc.beforePush]] at hcalled
  refine ⟨fun _ => ⟨hlidar ▸ hpc, hbusy hplace, by rw [hframe, hlidar, hvalue]⟩, ?_, ?_, ?_⟩
  · rw [hpublish', hlidar, ← hpublish]
    exact hs.published
  · rw [hundecided', hlidar]
    simpa [record, recordPublish, hrunning, hvalue, PublishPc.beforePush] using hentered
  · simpa [record, recordPublish, pushing, hpushed, hrunning] using hcalled

theorem pushThrows_tied {s t : Application} (hs : Tied w g s)
    (h : s.callbackStep options (.publish .pushThrows) = some t) :
    Tied (w ++ [.settled s.lidar.frame none]) (record s.server g (.publish () .pushThrows)) t := by
  rcases publishStep_spec h with ⟨hserver, -, hpc, hcallback, hlidar, -, hends⟩
  simp only [publishStep, Option.ite_none_right_eq_some, Option.some.injEq] at hserver
  rcases hserver with ⟨hpush, hnext⟩
  have hidle : (t.server.calls ()).pc = .idle := by
    rw [← hnext]
    simp [setCall]
  have hthrown : t.callback = .finished true := hends hidle
  rcases publishing hpc hcallback (by simp [hpush]) with ⟨hpublish, hundecided⟩
  rw [hpush] at hundecided
  have hpublished := hs.published
  have hentered := hs.entered
  have hcalled := hs.called
  rw [hpublish] at hpublished
  rw [hundecided] at hentered
  refine ⟨fun hcall => absurd hidle hcall, ?_, ?_, ?_⟩
  · simpa [inPublish, hthrown] using hpublished
  · simpa [record, recordPublish, undecided, hthrown, decided, PublishPc.beforePush] using hentered
  · simpa [record, recordPublish, pushing, hidle, PublishPc.beforePush] using
      (List.sublist_append_left _ _).trans hcalled

theorem quiet_tied {s t : Application} {event : PublishEvent} (hs : Tied w g s)
    (hcall : ∀ frame, event ≠ .call frame) (hpush : event ≠ .push)
    (hthrows : event ≠ .pushThrows)
    (h : s.callbackStep options (.publish event) = some t) :
    Tied w (record s.server g (.publish () event)) t := by
  rcases publishStep_spec h with ⟨hserver, -, hpc, hcallback, hlidar, hbusy, hends⟩
  rcases Node.publishStep_call hcall hserver with ⟨hplace, hframe, -⟩
  rcases publishStep_calls hserver hcall with ⟨call, hupdate, hbefore⟩
  rw [show call = t.server.calls () by rw [hupdate, Function.update_self]] at hbefore
  have hrecord : record s.server g (.publish () event) = g := by
    cases event <;> first | rfl | exact absurd rfl (hcall _) | contradiction
  have hvalue := (hs.calling hplace).2.2
  rcases publishing hpc hcallback hplace with ⟨hpublish, hundecided⟩
  have hpublish' : t.inPublish = [s.lidar.frame] := by
    by_cases hidle : (t.server.calls ()).pc = .idle
    · simp [inPublish, hlidar, hpc, hends hidle, hthrows]
    · simp [inPublish, hlidar, hpc, hbusy hidle, hidle]
  have hgrows : s.undecided.Sublist t.undecided := by
    by_cases hidle : (t.server.calls ()).pc = .idle
    · rw [show t.undecided = [s.lidar.frame] by
        simp [undecided, hlidar, hpc, hends hidle, hthrows], hundecided]
      split_ifs <;> simp
    · rw [(publishing (hlidar ▸ hpc) (hbusy hidle) hidle).2, hundecided, hlidar]
      cases hnext : (t.server.calls ()).pc.beforePush with
      | true => simp [(hbefore hnext).1]
      | false => cases (s.server.calls ()).pc.beforePush <;> simp
  have hshrinks : t.pushing.Sublist s.pushing := by
    cases hnext : (t.server.calls ()).pc.beforePush with
    | true => simp [pushing, hnext, hbefore hnext]
    | false => simp [pushing, hnext]
  rw [hrecord]
  refine ⟨fun hcall => ⟨hlidar ▸ hpc, hbusy hcall, by rw [hframe hcall, hlidar, hvalue]⟩, ?_,
    hs.entered.trans (hgrows.append_left _), (hshrinks.append_left _).trans hs.called⟩
  rw [hpublish', ← hpublish]
  exact hs.published

theorem decide_tied {s t : Application} {accepts : Bool} (hs : Tied w g s)
    (h : s.callbackStep options (.decide accepts) = some t) :
    Tied (w ++ [.settled s.lidar.frame (some accepts)]) g t := by
  simp only [callbackStep, Option.ite_none_right_eq_some, lidarCallback_ok,
    Option.some.injEq] at h
  rcases h with ⟨⟨hpc, hcallback⟩, rfl⟩
  have hidle : (s.server.calls ()).pc = .idle := by
    by_contra hcall
    exact absurd (hs.calling hcall).2.1 (by simp [hcallback])
  have hpublished := hs.published
  have hentered := hs.entered
  rw [show s.inPublish = [s.lidar.frame] by simp [inPublish, hpc, hcallback]] at hpublished
  rw [show s.undecided = [s.lidar.frame] by simp [undecided, hpc, hcallback]] at hentered
  refine ⟨fun hcall => absurd hidle hcall, ?_, ?_, ?_⟩
  · simpa [inPublish] using hpublished
  · simpa [undecided, decided] using hentered
  · rw [publications_append]
    exact hs.called.trans (List.sublist_append_left _ _)

theorem callbackStep_tied {s t : Application} {event : CallbackEvent} (hs : Tied w g s)
    (hcalls : CallInvariant s.server g) (h : s.callbackStep options event = some t) :
    Tied (w ++ fate options s (.callback event))
      ((serverAction (.callback event)).elim g (record s.server g)) t := by
  cases event with
  | decide accepts => exact decide_tied hs h
  | publish event =>
    cases event with
    | call frame => exact call_tied hs h
    | pushThrows => exact pushThrows_tied hs h
    | push => exact (List.append_nil w).symm ▸ push_tied hs hcalls h
    | _ => exact (List.append_nil w).symm ▸ quiet_tied hs (by simp) (by simp) (by simp) h

theorem step_tied {s t : Application} {a : Action} (hv : Wired options v s)
    (hcalls : CallInvariant s.server g) (hs : Tied w g s) (h : s.step options a = some t) :
    Tied (w ++ fate options s a) ((serverAction a).elim g (record s.server g)) t := by
  have hstep := (Option.ite_none_left_eq_some.mp h).2
  cases a with
  | main event =>
    have hkept : ((serverAction (.main event)).elim g (record s.server g)).entered = g.entered := by
      cases event <;> rfl
    rw [show fate options s (.main event) = [] from rfl, List.append_nil]
    exact hs.of_same (mainStep_delivery hv hstep) hkept
  | acquisition event => exact acquisitionStep_tied hs hstep
  | callback event => exact callbackStep_tied hs hcalls hstep
  | io event =>
    rcases Option.map_eq_some_iff.mp hstep with ⟨server, hserver, rfl⟩
    rw [show fate options s (.io event) = [] from rfl, List.append_nil]
    refine hs.of_same (.of_lidar rfl rfl ?_) (recordIo_calls s.server g event).2.2
    exact (ioStep_threads (Option.ite_none_left_eq_some.mp hserver).2).1

/-- The server of a run of the application has a run of its own, whose record is tied to what the
acquisition thread has settled. -/
theorem exec_tied {capacity : ℕ} {as : List Action} {s : Application}
    (h : exec (step options) (new capacity) as = some s) :
    ∃ g, exec tracedStep (TcpServer.new capacity, {}) (as.filterMap serverAction) =
        some (s.server, g) ∧ Tied (fates options capacity as) g s := by
  refine @exec_induction _ _ (step options) (new capacity) (fun as s => ∃ g,
    exec tracedStep (TcpServer.new capacity, {}) (as.filterMap serverAction) =
      some (s.server, g) ∧ Tied (fates options capacity as) g s)
    ⟨{}, rfl, new_tied capacity⟩ ?_ _ _ h
  rintro as a s t has ⟨g, hg, hs⟩ hstep
  refine ⟨(serverAction a).elim g (record s.server g), ?_, ?_⟩
  · have hserver := step_server hstep
    cases ha : serverAction a with
    | none =>
      rw [ha, Option.elim_none] at hserver
      simp [List.filterMap_append, ha, hserver, hg]
    | some b =>
      rw [ha, Option.elim_some] at hserver
      simp only [List.filterMap_append, List.filterMap_cons_some ha, List.filterMap_nil]
      exact exec_concat hg (tracedStep_eq_some.mpr ⟨hserver, rfl⟩)
  · rw [fates, trace_concat has hstep]
    exact step_tied (exec_wired has) (traced_invariant hg).1 hs hstep

section Screen
variable {ρ δ μ : Type} (radians : FloatBits → ρ) (degrees : FloatBits → δ)
  (metres : FloatBits → μ)

theorem decided_points (w : List Fate) :
    ((decided w).map ScanFrame.points).Sublist
      ((settlements w).map fun settled => settled.1.points) := by
  have hpoints : (decided w).map ScanFrame.points = (settlements w).filterMap fun settled =>
      settled.2.map fun _ => settled.1.points := by
    simp [decided, List.map_filterMap, Function.comp_def]
  rw [hpoints, ← List.filterMap_eq_map]
  induction settlements w with
  | nil => exact List.Sublist.slnil
  | cons settled rest ih =>
    rcases settled with ⟨frame, accepts⟩
    cases accepts with
    | none => exact ih.cons _
    | some accepts => exact ih.cons_cons _

theorem undecided_points (s : Application) :
    (s.undecided.map ScanFrame.points).Sublist s.unsettled := by
  by_cases hpending : s.lidar.worker.pc = .inCallback ∧
      (s.callback = .publish ∧ (s.server.calls ()).pc ≠ .idle ∧
        (s.server.calls ()).pc.beforePush = false ∨ s.callback = .decide)
  · have hheld : s.callback = .publish ∨ s.callback = .decide :=
      hpending.2.imp And.left id
    rw [undecided, if_pos hpending, unsettled, if_pos (Or.inr ⟨hpending.1, hheld⟩)]
    exact List.Sublist.refl _
  · simp [undecided, if_neg hpending]

/-- Frames that entered the queue one after the other were published, decided and measured in this
order. -/
theorem entered_seen {capacity : ℕ} {as : List Action} {s : Application} {g : History Unit}
    (h : exec (step options) (new capacity) as = some s)
    (htied : Tied (fates options capacity as) g s) {done : List Entry}
    (hentered : done.Sublist g.entered) :
    let seen := fates options capacity as
    (done.map Entry.frame).Sublist (publications seen) ∧
      ((done.map Entry.frame).map fun frame => frame.map floatValue).Sublist
        (decided seen ++ s.undecided) ∧
      ((done.map Entry.frame).map fun frame => (frame.map floatValue).points).Sublist
        (grabs seen) := by
  intro seen
  have hpublished : (done.map Entry.frame).Sublist (publications seen) :=
    (hentered.map _).trans ((List.sublist_append_left _ _).trans htied.called)
  have hdecided : ((done.map Entry.frame).map fun frame => frame.map floatValue).Sublist
      (decided seen ++ s.undecided) := by
    rw [List.map_map]
    exact (hentered.map _).trans htied.entered
  have hgrabs : ((decided seen ++ s.undecided).map ScanFrame.points).Sublist (grabs seen) := by
    rw [List.map_append, (exec_braked h).settled]
    exact (decided_points seen).append (undecided_points s)
  have hpoints := (hdecided.map ScanFrame.points).trans hgrabs
  rw [List.map_map] at hpoints
  exact ⟨hpublished, hdecided, hpoints⟩

/-- Over every run of the application, with any restarts, reconnects of clients, device faults and
failing pushes: every frame that was settled had been published, once and in order; and whatever
part of the bytes sent to a session has reached its peer, in any chunks, the frames that each
reader shows of it were published in this order, each carries the points of a revolution of its
own, and of each the brake has been decided, but for the one whose decision is next in the
callback under way. -/
theorem screen_shows_decided {capacity : ℕ} {as : List Action} {s : Application}
    (h : exec (step options) (new capacity) as = some s) {k : ℕ} {bytes : LittleEndian.Bytes}
    (hk : s.server.connections[k]? = some bytes) {chunks : List LittleEndian.Bytes}
    (hchunks : chunks.flatten <+: bytes) :
    let seen := fates options capacity as
    (publications seen).map (fun frame => frame.map floatValue) =
        (settlements seen).map Prod.fst ++ s.inPublish ∧
      ∃ shown kept, Reader.Shown radians degrees metres chunks shown kept ∧
        shown.Sublist (publications seen) ∧
        (shown.map fun frame => frame.map floatValue).Sublist (decided seen ++ s.undecided) ∧
        (shown.map fun frame => (frame.map floatValue).points).Sublist (grabs seen) := by
  intro seen
  rcases exec_tied h with ⟨g, hg, htied⟩
  rcases session_shown radians degrees metres hg hk hchunks with ⟨done, kept, hprefix, hshown, -⟩
  have hentered : done.Sublist g.entered := hprefix.sublist.trans (poppedFor_entered hg k)
  rcases entered_seen h htied hentered with ⟨hpublished, hdecided, hgrabs⟩
  exact ⟨htied.published, _, kept, hshown, hpublished, hdecided, hgrabs⟩

end Screen

def ioActions (as : List (TcpServer.Action Unit)) : List Action :=
  as.filterMap fun
    | .io event => some (.io event)
    | _ => none

/-- A client is accepted while the callback of the first frame runs, and has been sent the frame
before the brake is decided. -/
def overtakenActions : List Action :=
  Application.startActions ++ ioActions acceptActions ++
    ([.callback (.publish .loadConnected), .callback (.publish .loadRunning),
      .callback (.publish .push), .callback (.publish (.signal .proceed)),
      .callback (.publish (.signal .proceed)), .callback (.publish (.signal .written))] :
      List Action) ++
    ioActions wakeActions ++ ([.io .pump, .io (.send (.written 42)), .io .pump] : List Action)

theorem screen_shows_decided_pending :
    ∃ s, exec (step {}) (new 4) overtakenActions = some s ∧
      s.server.connections[0]? = some (encode oneReturnFrame) ∧
      decided (fates {} 4 overtakenActions) = [] ∧
      ∃ shown kept, Reader.Shown id id id [encode oneReturnFrame] shown kept ∧
        (shown.map fun frame => frame.map floatValue).Sublist s.undecided := by
  have hrun : (exec (step {}) (new 4) overtakenActions).map (fun s => s.server.connections) =
      some [encode oneReturnFrame] := by
    decide +kernel
  obtain ⟨s, hs, hconnections⟩ := Option.map_eq_some_iff.mp hrun
  have hk : s.server.connections[0]? = some (encode oneReturnFrame) := by
    rw [hconnections]
    rfl
  have hnone : (settlements (fates {} 4 overtakenActions)).length = 0 := by decide +kernel
  have hnothing : decided (fates {} 4 overtakenActions) = [] := by
    simp [decided, List.length_eq_zero_iff.mp hnone]
  have hchunks : [encode oneReturnFrame].flatten <+: encode oneReturnFrame := by simp
  obtain ⟨-, shown, kept, hshown, -, hdecided, -⟩ :=
    screen_shows_decided id id id hs hk hchunks
  rw [hnothing] at hdecided
  exact ⟨s, hs, hk, hnothing, shown, kept, hshown, hdecided⟩

end AebNode.Application
