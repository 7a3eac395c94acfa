import AebNode.BeamToScreen
import AebNode.ExactReadings
import AebNode.StopBounds

/-! The shutdown of the node comes to its end. Each call of `stop` has a few steps, the thread it
joins has a bound of its own, and the main thread never waits for a thread that cannot move. -/
namespace AebNode

namespace Lidar

variable {κ : Type*} {config : LidarConfig}

/-- The steps left of a call of `stop`, or of one still to be made. -/
@[simp] def OwnerPc.stopRemaining : OwnerPc → ℕ
  | .idle => 5
  | .stopNotify => 4
  | .stopJoin => 3
  | .stopClose => 2
  | .stopClearRunning => 1
  | _ => 0

/-- A step of `stop` is its last one or leaves one fewer. -/
theorem ownerStep_stopRemaining {s t : Lidar κ} {event : OwnerEvent κ}
    (hstops : s.owner.pc.stops = true) (hcall : s.owner.pc = .idle → event = .stop)
    (h : s.ownerStep config event = some t) :
    event ≠ .spawn none ∧ s.owner.pc ≠ .startClearStop ∧
      (if t.owner.pc = .idle then s.owner.pc = .stopClearRunning
        else t.owner.pc.stopRemaining + 1 = s.owner.pc.stopRemaining) := by
  have hplace : s.owner.pc ≠ .startClearStop := fun hpc => by simp [hpc] at hstops
  cases event <;> simp only [ownerStep, Option.ite_none_right_eq_some, Option.some.injEq] at h
  case stop | notify =>
    obtain ⟨hpc, rfl⟩ := h
    simp [hpc]
  case join =>
    obtain ⟨⟨hpc, -⟩, rfl⟩ := h
    simp [hpc]
  case start callback => exact absurd (hcall h.1) (by simp)
  case close | clearRunning =>
    split_ifs at h with hpc hpc
    · obtain rfl := Option.some.inj h
      simp [hpc]
    · simp [hpc] at hstops
  case setError => split_ifs at h with hpc hpc <;> simp [hpc] at hstops
  all_goals simp [h.1] at hstops

end Lidar

namespace WakePipe

@[simp] def SignalPc.remaining : SignalPc → ℕ
  | .check => 4
  | .exchange => 3
  | .write => 2
  | .restore => 1

/-- Only an interrupted write leaves as many steps of `signal` as before. -/
theorem signalStep_remaining {w w' : WakePipe} {pc : SignalPc} {event : SignalEvent}
    {next : Option SignalPc} (h : signalStep w pc event = some (w', next)) :
    next.elim 0 SignalPc.remaining + 1 ≤
      pc.remaining + if event = .interrupted then 1 else 0 := by
  cases pc <;> cases event <;> simp only [signalStep, reduceCtorEq, Option.some.injEq,
    Prod.mk.injEq, Option.ite_none_right_eq_some, Option.ite_none_left_eq_some] at h
  case check.proceed | exchange.proceed =>
    obtain ⟨-, rfl⟩ := h
    split_ifs <;> simp
  case write.written | write.failed =>
    obtain ⟨-, -, rfl⟩ := h
    simp
  all_goals
    obtain ⟨-, rfl⟩ := h
    simp

theorem signalStep_enabled (w : WakePipe) (pc : SignalPc) :
    ∃ event r, event ≠ .interrupted ∧ signalStep w pc event = some r := by
  cases pc with
  | check => exact ⟨.proceed, _, by decide, rfl⟩
  | exchange => exact ⟨.proceed, _, by decide, rfl⟩
  | write =>
    by_cases hvalid : w.valid = true
    · exact ⟨.written, _, by decide, if_pos hvalid⟩
    · exact ⟨.failed, _, by decide, if_neg fun hempty => hvalid hempty.1⟩
  | restore => exact ⟨.proceed, _, by decide, rfl⟩

end WakePipe

namespace TcpServer
open WakePipe

variable {ι : Type*}

/-- The steps left of a call of `stop`, or of one still to be made. -/
@[simp] def Owner.stopRemaining (owner : Owner) : ℕ :=
  match owner.pc with
  | .idle => 10
  | .stopSignal => owner.signal.remaining + 5
  | .stopJoin => 5
  | .stopResetEnds => 4
  | .stopClearPending => 3
  | .stopClearConnected => 2
  | .stopClearRunning => 1
  | _ => 0

/-- A step of `stop` is its last one or leaves one fewer, unless a write is interrupted. -/
theorem ownerStep_stopRemaining {s t : TcpServer ι} {event : OwnerEvent}
    (hstops : s.owner.pc.stops = true) (hcall : s.owner.pc = .idle → event = .stop)
    (h : s.ownerStep event = some t) :
    if t.owner.pc = .idle then s.owner.pc = .stopClearRunning
    else t.owner.stopRemaining + 1 ≤
      s.owner.stopRemaining + if event = .signal .interrupted then 1 else 0 := by
  cases event <;> simp only [ownerStep, Option.ite_none_right_eq_some, Option.some.injEq,
    Option.map_eq_some_iff] at h
  case stop =>
    obtain ⟨hpc, rfl⟩ := h
    simp [hpc]
  case signal event =>
    obtain ⟨hpc, ⟨wake, next⟩, hsignal, rfl⟩ := h
    have hspent := signalStep_remaining hsignal
    cases next with
    | none => simp [hpc] at hspent ⊢; omega
    | some next => simp [hpc] at hspent ⊢; omega
  case join =>
    obtain ⟨⟨hpc, -⟩, rfl⟩ := h
    simp [hpc]
  case clearConnected =>
    obtain ⟨hpc, rfl⟩ := h
    simp [hpc]
  case resetEnds | clearPending | clearRunning =>
    split_ifs at h with hpc hpc
    · obtain rfl := Option.some.inj h
      simp [hpc]
    · simp [hpc] at hstops
  case start => exact absurd (hcall h.1) (by simp)
  all_goals simp [h.1] at hstops

/-- The steps left of a call of `publish`, or of one still to be made. -/
@[simp] def PublishCall.remaining (call : PublishCall) : ℕ :=
  match call.pc with
  | .idle => 9
  | .loadConnected => 8
  | .loadRunning => 7
  | .push => 6
  | .addDropped => 5
  | .signal => call.signal.remaining
  | .discard => 1

theorem PublishCall.remaining_pos (call : PublishCall) : 0 < call.remaining := by
  cases hpc : call.pc <;> simp [hpc]
  cases call.signal <;> simp

variable [DecidableEq ι]

theorem publishStep_remaining {s t : TcpServer ι} {p : ι} {event : PublishEvent}
    (h : s.publishStep p event = some t) :
    (t.calls p).pc = .idle ∨ (t.calls p).remaining + 1 ≤
      (s.calls p).remaining + if event = .signal .interrupted then 1 else 0 := by
  cases event <;> simp only [publishStep, Option.ite_none_right_eq_some, Option.some.injEq,
    Option.map_eq_some_iff] at h
  case signal event =>
    obtain ⟨hpc, ⟨wake, next⟩, hsignal, rfl⟩ := h
    have hspent := signalStep_remaining hsignal
    cases next with
    | none => exact Or.inl (by simp [setCall])
    | some next => exact Or.inr (by simpa [setCall, hpc] using hspent)
  case push =>
    obtain ⟨hpc, rfl⟩ := h
    refine Or.inr ?_
    dsimp only [setCall]
    split_ifs <;> simp [hpc]
  case loadConnected | loadRunning =>
    obtain ⟨hpc, rfl⟩ := h
    refine Or.inr ?_
    dsimp only [setCall]
    split_ifs <;> simp [hpc]
  case addDropped =>
    obtain ⟨hpc, rfl⟩ := h
    cases (s.calls p).signal <;> simp [setCall, hpc]
  all_goals
    obtain ⟨hpc, rfl⟩ := h
    simp [setCall, hpc]

end TcpServer

namespace Application
open CommandLine Machine Protocol TcpServer WakePipe

@[simp] def Pc.shutsDown : Pc → Bool
  | .stopLidar | .destroyLidar | .stopServer | .closeCan => true
  | _ => false

/-- It is there, or has returned from `run` or the destructor. -/
@[simp] def Pc.leaves : Pc → Bool
  | .outside | .destroyed => true
  | pc => pc.shutsDown

/-- What the destruction of the members takes, behind the body of the destructor: the server is
stopped and the bus closed once more. -/
@[simp] def Leaving.remaining : Leaving → ℕ
  | .destructor => 11
  | _ => 0

@[simp] def mainRemaining (s : Application) : ℕ :=
  match s.pc with
  | .stopLidar => s.lidar.owner.pc.stopRemaining + 16 + s.leaving.remaining
  | .destroyLidar => s.lidar.owner.pc.stopRemaining + 11 + s.leaving.remaining
  | .stopServer => s.server.owner.stopRemaining + 1 + s.leaving.remaining
  | .closeCan => 1 + s.leaving.remaining
  | _ => 0

@[simp] def callbackRemaining (s : Application) : ℕ :=
  match s.callback with
  | .publish => (s.server.calls ()).remaining + 1
  | .decide => 1
  | .finished _ => 0

/-- The steps of the callback, for the frame in hand or the one that may yet be grabbed. -/
@[simp] def deliveryRemaining (s : Application) : ℕ :=
  match s.lidar.worker.pc with
  | .acquire | .deliver => 10
  | .inCallback => s.callbackRemaining
  | _ => 0

/-- The most steps left of a shutdown, those of the I/O thread not counted. -/
def remaining (s : Application) : ℕ :=
  s.mainRemaining + s.lidar.worker.remaining + s.deliveryRemaining

@[simp] def Action.isIo : Action → Bool
  | .io _ => true
  | _ => false

/-- A write to the wake pipe that a signal handler interrupted, and that is made again. -/
@[simp] def Action.rewrites : Action → Bool
  | .main (.server (.signal .interrupted)) | .callback (.publish (.signal .interrupted)) => true
  | _ => false

variable {options : Options} {v : List Milestone} {w : List Fate} {g : History Unit}

/-- The main thread leaves, and the acquisition thread is asked to end, if it lives. -/
structure Leaves (s : Application) : Prop where
  place : s.pc.leaves = true
  flagged : s.lidar.worker.pc ≠ .exited → s.lidar.stopRequested = true

theorem deliveryRemaining_owner {s : Application} {lidar : Lidar Unit}
    {event : Lidar.OwnerEvent Unit} (h : s.lidar.ownerStep options.lidar event = some lidar) :
    { s with lidar := lidar }.deliveryRemaining ≤ s.deliveryRemaining := by
  rcases (Lidar.ownerStep_frame h).2.2.2 with hsame | ⟨-, hwoken⟩ | ⟨-, hstarted⟩
  · simp only [deliveryRemaining, callbackRemaining, hsame, le_refl]
  · simp [hwoken]
  · simp [hstarted]

theorem stopLidar_leaves {s : Application} {lidar : Lidar Unit} {event : Lidar.OwnerEvent Unit}
    (hv : Wired options v s) (hs : Leaves s) (hpc : s.pc = .stopLidar ∨ s.pc = .destroyLidar)
    (hcall : s.lidar.owner.pc = .idle → event = .stop)
    (h : s.lidar.ownerStep options.lidar event = some lidar) :
    Leaves ({ s with lidar := lidar }.lidarReturns event) ∧
      ({ s with lidar := lidar }.lidarReturns event).remaining + 1 ≤ s.remaining := by
  have hstops : s.lidar.owner.pc.stops = true := by
    rcases hpc with hpc | hpc <;> exact (hv.place hpc).2.1
  rcases Lidar.ownerStep_stopRemaining hstops hcall h with ⟨hspawn, hplace, hspent⟩
  rcases Lidar.ownerStep_remaining hspawn h with ⟨hworker, -, hexited⟩
  have hdelivery := @deliveryRemaining_owner _ s _ _ h
  have hreleased := (Lidar.ownerStep_stops hv.supervised hv.lidarWinding hstops hcall h).2.2
  have hflagged : lidar.worker.pc ≠ .exited → lidar.stopRequested = true := fun hlive =>
    Lidar.ownerStep_stopRequested hplace (hs.flagged (mt hexited.mpr hlive)) h
  unfold lidarReturns
  by_cases hidle : lidar.owner.pc = .idle
  · rw [if_pos hidle] at hspent
    rcases hpc with hpc | hpc
    · simp only [hidle, hpc, ne_eq, not_true_eq_false, if_false, if_true]
      refine ⟨⟨rfl, hflagged⟩, ?_⟩
      simp only [remaining, mainRemaining, deliveryRemaining, callbackRemaining, hpc, hspent, hidle,
        Lidar.OwnerPc.stopRemaining] at hdelivery ⊢
      omega
    · have hserver : s.server.owner.pc = .idle := (hv.place hpc).2.2.1
      have hgone := hreleased hidle
      simp only [hidle, hpc, ne_eq, not_true_eq_false, if_false, if_true, reduceCtorEq]
      rw [releaseLidar, if_neg (by simp [hgone.joined])]
      refine ⟨⟨rfl, hflagged⟩, ?_⟩
      simp only [remaining, mainRemaining, deliveryRemaining, callbackRemaining, hpc, hspent,
        hserver, Lidar.OwnerPc.stopRemaining, Owner.stopRemaining] at hdelivery ⊢
      omega
  · rw [if_neg hidle] at hspent
    rw [if_pos hidle]
    refine ⟨⟨hs.place, hflagged⟩, ?_⟩
    simp only [remaining, mainRemaining, deliveryRemaining, callbackRemaining] at hdelivery ⊢
    rcases hpc with hpc | hpc <;> simp only [hpc] <;> omega

theorem stopServer_leaves {s : Application} {server : TcpServer Unit} {event : OwnerEvent}
    (hv : Wired options v s) (hs : Leaves s) (hpc : s.pc = .stopServer)
    (hcall : s.server.owner.pc = .idle → event = .stop)
    (h : s.server.ownerStep event = some server) :
    let t := { s with server := server, listening := s.listeningAfter event }.serverReturns event
    Leaves t ∧ t.remaining + 1 ≤
      s.remaining + (Action.main (.server event)).rewrites.toNat := by
  intro t
  have hspent := ownerStep_stopRemaining (hv.place hpc).2.2.1.1 hcall h
  have hcalls : server.calls = s.server.calls := (ownerStep_frame h).2.2.2.1
  have hrewrites : (Action.main (.server event)).rewrites.toNat =
      if event = .signal .interrupted then 1 else 0 := by
    cases event with
    | signal event => cases event <;> simp
    | _ => simp
  rw [hrewrites]
  unfold t serverReturns
  by_cases hidle : server.owner.pc = .idle
  · rw [if_pos hidle] at hspent
    simp only [hidle, hpc, ne_eq, not_true_eq_false, if_false, if_true]
    refine ⟨⟨rfl, hs.flagged⟩, ?_⟩
    simp only [remaining, mainRemaining, deliveryRemaining, callbackRemaining, hpc, hcalls, hspent,
      Owner.stopRemaining]
    omega
  · rw [if_neg hidle] at hspent
    rw [if_pos hidle]
    refine ⟨⟨hs.place, hs.flagged⟩, ?_⟩
    simp only [remaining, mainRemaining, deliveryRemaining, callbackRemaining, hpc, hcalls]
    omega

theorem closeCan_leaves {s t : Application} (hv : Wired options v s) (hs : Leaves s)
    (h : s.mainStep options .closeCan = some t) : Leaves t ∧ t.remaining + 1 ≤ s.remaining := by
  simp only [mainStep, Option.ite_none_right_eq_some, Option.some.injEq] at h
  rcases h with ⟨hpc, rfl⟩
  rcases hv.place hpc with ⟨hheld, -, hserver, -, -⟩
  simp only [Pc.holdsLidar] at hheld
  have hidle : s.server.owner.pc = .idle := hserver.1
  refine ⟨⟨?_, ?_⟩, ?_⟩
  · cases s.leaving <;> simp [leave, shutdown, hheld]
  · rw [(leave_frame _).1]
    exact hs.flagged
  · cases hleaving : s.leaving <;>
      simp only [leave, hleaving, shutdown, hheld, Bool.false_eq_true, if_false, remaining,
        mainRemaining, deliveryRemaining, callbackRemaining, hpc, hidle, Leaving.remaining,
        Owner.stopRemaining] <;> omega

theorem mainStep_leaves {s t : Application} {event : MainEvent} (hv : Wired options v s)
    (hs : Leaves s) (hrun : event ≠ .run) (hdestroy : event ≠ .destroy)
    (h : s.mainStep options event = some t) :
    Leaves t ∧ t.remaining + 1 ≤ s.remaining + (Action.main event).rewrites.toNat := by
  have hplace := hs.place
  cases event with
  | run => exact absurd rfl hrun
  | destroy => exact absurd rfl hdestroy
  | closeCan => exact closeCan_leaves hv hs h
  | server event =>
    simp only [mainStep, Option.ite_none_right_eq_some] at h
    rcases h with ⟨⟨hsome, hcall⟩, h⟩
    rcases Option.map_eq_some_iff.mp h with ⟨server, hserver, rfl⟩
    have hstep := (Option.ite_none_left_eq_some.mp hserver).2
    rcases serverCall_isSome hsome with hpc | hpc
    · simp [hpc] at hplace
    · simp only [hpc, serverCall, Option.some.injEq] at hcall
      exact stopServer_leaves hv hs hpc (fun hidle => (hcall.mp hidle).symm) hstep
  | lidar event =>
    simp only [mainStep, Option.ite_none_right_eq_some] at h
    rcases h with ⟨⟨hsome, hcall⟩, h⟩
    rcases Option.map_eq_some_iff.mp h with ⟨lidar, hlidar, rfl⟩
    have hstep := (Option.ite_none_left_eq_some.mp hlidar).2
    rcases lidarCall_isSome hsome with hpc | hpc | hpc
    · simp [hpc] at hplace
    all_goals
      simp only [hpc, lidarCall, Option.some.injEq] at hcall
      exact stopLidar_leaves hv hs (by simp [hpc]) (fun hidle => (hcall.mp hidle).symm) hstep
  | _ =>
    simp only [mainStep, Option.ite_none_right_eq_some] at h
    simp [h.1] at hplace

/-- With the flag up no further revolution is begun. -/
theorem acquisitionStep_leaves {s t : Application} {event : Lidar.WorkerEvent}
    (htied : Tied w g s) (hs : Leaves s) (h : s.acquisitionStep options event = some t) :
    Leaves t ∧ t.remaining + 1 ≤ s.remaining := by
  have hidle := (acquisitionStep_delivery htied h).1
  have hbegins := acquisitionStep_begins h
  rcases acquisitionStep_spec h with ⟨lidar, callback, hstep, rfl⟩
  rcases Lidar.workerStep_frame hstep with ⟨hlive, -, howner, -, hflag, -⟩
  have hspent := (Lidar.workerStep_remaining (hs.flagged hlive) hstep).1
  have hnext := Lidar.workerStep_next hstep
  have hdelivery : { s with lidar := lidar, callback := callback }.deliveryRemaining ≤
      s.deliveryRemaining := by
    cases hplace : lidar.worker.pc <;> simp only [deliveryRemaining, hplace, Nat.zero_le]
    case acquire =>
      rw [hplace] at hnext
      cases hfrom : s.lidar.worker.pc <;> simp [hfrom, Lidar.WorkerPc.next] at hnext
      simp [hplace, hfrom] at hspent
    case deliver =>
      rw [hplace] at hnext
      cases hfrom : s.lidar.worker.pc <;> simp [hfrom, Lidar.WorkerPc.next] at hnext ⊢
    case inCallback =>
      rw [hplace] at hnext
      cases hfrom : s.lidar.worker.pc <;> simp [hfrom, Lidar.WorkerPc.next] at hnext
      have hcallback : callback = .publish := hbegins hplace
      simp [hcallback, hidle]
  refine ⟨⟨hs.place, fun _ => hflag.trans (hs.flagged hlive)⟩, ?_⟩
  simp only [remaining, mainRemaining, howner] at hdelivery ⊢
  omega

/-- A step of the callback, under the flag of the thread it runs on. -/
theorem callbackStep_leaves {s t : Application} {event : CallbackEvent} (hs : Leaves s)
    (h : s.callbackStep options event = some t) :
    Leaves t ∧ t.remaining + 1 ≤ s.remaining + (Action.callback event).rewrites.toNat := by
  cases event with
  | decide accepts =>
    simp only [callbackStep, Option.ite_none_right_eq_some, lidarCallback_ok,
      Option.some.injEq] at h
    rcases h with ⟨⟨hpc, hcallback⟩, rfl⟩
    refine ⟨⟨hs.place, hs.flagged⟩, ?_⟩
    simp [remaining, hpc, hcallback]
  | publish event =>
    rcases publishStep_spec h with ⟨hserver, -, hpc, hcallback, hlidar, hbusy, hends⟩
    rcases callbackStep_spec h with ⟨-, server, canBus, callback, -, -, -, rfl⟩
    have howner := (publishStep_frame hserver).2.2.2.1
    have hrewrites : (Action.callback (.publish event)).rewrites.toNat =
        if event = .signal .interrupted then 1 else 0 := by
      cases event with
      | signal event => cases event <;> simp
      | _ => simp
    refine ⟨⟨hs.place, hs.flagged⟩, ?_⟩
    dsimp only at hserver howner hbusy hends
    simp only [remaining, mainRemaining, deliveryRemaining, callbackRemaining, hpc, hcallback,
      howner, hrewrites]
    by_cases hidle : (server.calls ()).pc = .idle
    · have hpos := (s.server.calls ()).remaining_pos
      rw [hends hidle]
      split_ifs <;> dsimp only <;> omega
    · rw [hbusy hidle]
      have hspent := (publishStep_remaining hserver).resolve_left hidle
      dsimp only
      omega

theorem io_leaves {s : Application} {server : TcpServer Unit} {event : IoEvent} (hs : Leaves s)
    (h : s.server.ioStep event = some server) :
    Leaves { s with server := server } ∧ { s with server := server }.remaining = s.remaining := by
  rcases ioStep_threads h with ⟨hcalls, howner, -⟩
  exact ⟨⟨hs.place, hs.flagged⟩, by
    simp only [remaining, mainRemaining, deliveryRemaining, callbackRemaining, hcalls, howner]⟩

theorem step_leaves {s t : Application} {a : Action} (hv : Wired options v s)
    (htied : Tied w g s) (hs : Leaves s) (hrun : a ≠ .main .run) (hdestroy : a ≠ .main .destroy)
    (h : s.step options a = some t) :
    Leaves t ∧ t.remaining + (!a.isIo).toNat ≤ s.remaining + a.rewrites.toNat := by
  have hstep := (Option.ite_none_left_eq_some.mp h).2
  cases a with
  | main event =>
    exact mainStep_leaves hv hs (fun he => hrun (congrArg _ he))
      (fun he => hdestroy (congrArg _ he)) hstep
  | acquisition event => exact acquisitionStep_leaves htied hs hstep
  | callback event => exact callbackStep_leaves hs hstep
  | io event =>
    rcases Option.map_eq_some_iff.mp hstep with ⟨server, hserver, rfl⟩
    rcases io_leaves hs (Option.ite_none_left_eq_some.mp hserver).2 with ⟨hleaves, hsame⟩
    exact ⟨hleaves, by simp [hsame]⟩

theorem mainRemaining_le (s : Application) : s.mainRemaining ≤ 32 := by
  have hlidar : s.lidar.owner.pc.stopRemaining ≤ 5 := by
    cases s.lidar.owner.pc <;> simp
  have hserver : s.server.owner.stopRemaining ≤ 10 := by
    cases hpc : s.server.owner.pc <;> simp [hpc]
    cases s.server.owner.signal <;> simp
  have hleaving : s.leaving.remaining ≤ 11 := by
    cases s.leaving <;> simp
  unfold mainRemaining
  split <;> omega

theorem deliveryRemaining_le (s : Application) :
    s.lidar.worker.remaining + s.deliveryRemaining ≤ 18 := by
  have hcallback : s.callbackRemaining ≤ 10 := by
    unfold callbackRemaining
    split
    · cases hpc : (s.server.calls ()).pc <;> simp [hpc]
      cases (s.server.calls ()).signal <;> simp
    · omega
    · omega
  have hworker := s.lidar.worker.remaining_le
  unfold deliveryRemaining
  split
  case h_1 hpc => simp [hpc]
  case h_2 hpc => simp [hpc]
  case h_3 hpc =>
    simp only [Lidar.Worker.remaining, hpc]
    omega
  case h_4 => omega

/-- From any reachable state of a shutdown with the acquisition thread asked to end: until `run`
is called again or the application destroyed, the main thread, the acquisition thread and its
callback take at most fifty steps together, and one more for each write to the wake pipe that was
interrupted, whatever the I/O thread does meanwhile. -/
theorem shutdown_bounded {capacity : ℕ} {as bs : List Action} {s t : Application}
    (has : exec (step options) (new capacity) as = some s) (hplace : s.pc.shutsDown = true)
    (hflagged : s.lidar.worker.pc ≠ .exited → s.lidar.stopRequested = true)
    (hbs : ∀ a ∈ bs, a ≠ .main .run ∧ a ≠ .main .destroy)
    (h : exec (step options) s bs = some t) :
    t.remaining + bs.countP (fun a => !a.isIo) ≤ s.remaining + bs.countP Action.rewrites ∧
      s.remaining ≤ 50 ∧ t.pc.leaves = true := by
  have hleaves : Leaves s := ⟨by cases hpc : s.pc <;> simp [hpc] at hplace ⊢, hflagged⟩
  have hkeep : ∀ (s : Application) a t, (∃ as, exec (step options) (new capacity) as = some s) ∧
      Leaves s → (a ≠ .main .run ∧ a ≠ .main .destroy) → s.step options a = some t →
      ((∃ as, exec (step options) (new capacity) as = some t) ∧ Leaves t) ∧
        t.remaining + (!a.isIo).toNat ≤ s.remaining + a.rewrites.toNat := by
    rintro s a t ⟨⟨as, has⟩, hs⟩ ⟨hrun, hdestroy⟩ hstep
    rcases exec_tied has with ⟨g, -, htied⟩
    rcases step_leaves (exec_wired has) htied hs hrun hdestroy hstep with ⟨ht, hpaid⟩
    exact ⟨⟨⟨_, exec_concat has hstep⟩, ht⟩, hpaid⟩
  have hok := @along_of_forall _ _ _ (step options) s _ hbs
  have hstart : (∃ as, exec (step options) (new capacity) as = some s) ∧ Leaves s :=
    ⟨⟨as, has⟩, hleaves⟩
  have hpaid := exec_potential hkeep hstart hok h
  rw [sum_map_toNat, sum_map_toNat] at hpaid
  have hends := exec_invariant_along (fun s a t hs ha hstep => (hkeep s a t hs ha hstep).1) hstart
    hok h
  refine ⟨hpaid, ?_, hends.2.place⟩
  have hmain := s.mainRemaining_le
  have hdelivery := s.deliveryRemaining_le
  unfold remaining
  omega

/-- SIGTERM in the middle of the callback: the rest of the shutdown. -/
theorem shutdown_bounded_signalled : ∃ s t,
    exec (step {}) (new 4) (Application.startActions ++ stopActions.take 2) = some s ∧
      exec (step {}) s (stopActions.drop 2) = some t ∧ t.pc = .outside ∧
      (stopActions.drop 2).countP (fun a => !a.isIo) = 27 ∧ 27 ≤ s.remaining := by
  have hrun : (exec (step {}) (new 4) ((Application.startActions ++ stopActions.take 2) ++
      stopActions.drop 2)).map (fun s => s.pc) = some .outside := by decide +kernel
  have hasked : (exec (step {}) (new 4) (Application.startActions ++ stopActions.take 2)).map
      (fun s => (s.pc, s.lidar.stopRequested)) = some (.stopLidar, true) := by decide +kernel
  obtain ⟨t, ht, hpc⟩ := Option.map_eq_some_iff.mp hrun
  obtain ⟨s, hs, hbs⟩ := exec_append.mp ht
  rw [hs] at hasked
  obtain ⟨hplace, hflagged⟩ := Prod.mk.inj (Option.some.inj hasked)
  have hnone : ∀ a ∈ stopActions.drop 2, a ≠ .main .run ∧ a ≠ .main .destroy := by
    simp [stopActions]
  have hbound := (shutdown_bounded hs (by simp [show s.pc = .stopLidar from hplace])
    (fun _ => hflagged) hnone hbs).1
  have hcount : (stopActions.drop 2).countP (fun a => !a.isIo) = 27 := by decide
  have hrewrites : (stopActions.drop 2).countP Action.rewrites = 0 := by decide
  exact ⟨s, t, hs, hbs, hpc, hcount, by omega⟩

end Application

end AebNode
