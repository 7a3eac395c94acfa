import AebNode.BrakingTrace

/-! What `run` returns. Supervision outlives every outage while the lidar may reconnect; without
that, the thread ends by itself only behind an error it has a text for. Over a whole run the exit
code tells which of its endings a run of the application came to. -/
namespace AebNode

namespace Lidar
open Machine

variable {κ : Type*}

/-- The places at which the thread counts on an open device. -/
@[simp] def WorkerPc.serves : WorkerPc → Bool
  | .loopHead | .acquire | .setGrabError | .countEmpty | .deliver | .inCallback | .countThrow
  | .countDelivered | .countFailure | .closeLost => true
  | _ => false

@[simp] def WorkerPc.reconnects : WorkerPc → Bool
  | .testPredicate | .block | .blocked | .testAfterTimeout | .reopen | .countConnect
  | .setOpenError => true
  | _ => false

@[simp] def OwnerPc.cleared : OwnerPc → Bool
  | .startAssign => true
  | pc => pc.prepares

/-- The device failed for good, with an error to report. -/
def Faulted (config : LidarConfig) (s : Lidar κ) : Prop :=
  config.autoReconnect = false ∧ s.lastError ≠ ""

variable {config : LidarConfig}

theorem setError_told (s : Lidar κ) {message : String} (h : message ≠ "" ∨ s.lastError ≠ "") :
    (s.setError message).lastError ≠ "" := by
  cases hempty : message.isEmpty with
  | true => simpa [setError, String.isEmpty_iff.mp hempty] using h
  | false =>
    have hmessage : message ≠ "" := fun he => by simp [he] at hempty
    simp [setError, hmessage]

theorem grabScan_error (config : LidarConfig) (device : RpLidarDevice)
    (points : List (ScanPoint ℚ)) (sdk : Revolution) {message : String}
    (h : (device.grabScan config points sdk).2.2 = .error message) : message ≠ "" := by
  simp only [RpLidarDevice.grabScan] at h
  split at h
  · simp [← Except.error.inj h]
  · split_ifs at h
    simp [← Except.error.inj h, String.append_eq_empty_iff]

/-- What a thread with a single connection has at its places, and what any thread leaves with. -/
structure Serving (config : LidarConfig) (s : Lidar κ) : Prop where
  told : s.worker.pc = .setGrabError → s.worker.error ≠ ""
  serving : config.autoReconnect = false → s.worker.pc.serves = true → s.device.isOpen = true
  once : config.autoReconnect = false → s.worker.pc.reconnects = false
  failing : config.autoReconnect = false →
    s.worker.pc = .countFailure ∨ s.worker.pc = .closeLost ∨ s.worker.pc = .checkStop →
    s.lastError ≠ ""
  leaving : s.worker.pc = .closeOnExit ∨ s.worker.pc = .exitRunning → s.stopRequested = false →
    Faulted config s

/-- A thread that reconnects owes nothing as long as it neither holds an error nor leaves. -/
theorem Serving.of_reconnecting {s : Lidar κ} (hon : config.autoReconnect = true)
    (hplace : s.worker.pc ≠ .setGrabError ∧ s.worker.pc ≠ .closeOnExit ∧
      s.worker.pc ≠ .exitRunning) : Serving config s where
  told hpc := absurd hpc hplace.1
  serving hoff := by simp [hon] at hoff
  once hoff := by simp [hon] at hoff
  failing hoff := by simp [hon] at hoff
  leaving hpc := absurd hpc (not_or.mpr hplace.2)

theorem Serving.reconnecting {s : Lidar κ} (hs : Serving config s)
    (hpc : s.worker.pc.reconnects = true) : config.autoReconnect = true := by
  by_contra hoff
  have honce := hs.once (by simpa using hoff)
  rw [hpc] at honce
  cases honce

theorem Serving.withOwner {s : Lidar κ} (hs : Serving config s) (joinable : Bool)
    (owner : Owner κ) : Serving config { s with joinable := joinable, owner := owner } :=
  ⟨hs.told, hs.serving, hs.once, hs.failing, hs.leaving⟩

theorem acquire_serving {s t : Lidar κ} {sdk : Revolution} (hs : Serving config s)
    (h : s.workerStep config (.acquire sdk) = some t) : Serving config t := by
  simp only [workerStep, Option.ite_none_right_eq_some] at h
  obtain ⟨hpc, h⟩ := h
  by_cases hopen : s.device.isOpen = true
  · have hstill : (s.device.grabScan config s.frame.points sdk).1.isOpen = true :=
      (grabScan_isOpen s.device s.frame.points sdk).trans hopen
    rw [if_neg (by simp [hopen])] at h
    obtain rfl := Option.some.inj h
    cases hgrab : (s.device.grabScan config s.frame.points sdk).2.2 with
    | error message =>
      have hmessage := grabScan_error config s.device s.frame.points sdk hgrab
      exact ⟨fun _ => hmessage, fun _ _ => hstill, fun _ => rfl, by simp, by simp⟩
    | ok _ =>
      dsimp only
      refine ⟨?_, fun _ _ => hstill, fun _ => ?_, ?_, ?_⟩ <;> split_ifs <;> simp
  · -- Only a thread that reconnects acquires from a closed device.
    have hreconnect : config.autoReconnect = true := by
      by_contra hoff
      exact hopen (hs.serving (by simpa using hoff) (by simp [hpc]))
    rw [if_pos hopen] at h
    obtain rfl := Option.some.inj h
    exact .of_reconnecting hreconnect (by simp [goto])

theorem workerStep_serving {s t : Lidar κ} {event : WorkerEvent} (hs : Serving config s)
    (h : s.workerStep config event = some t) : Serving config t := by
  have hserving := hs.serving
  have hfailing := hs.failing
  cases event
  case acquire sdk => exact acquire_serving hs h
  all_goals simp only [workerStep, Option.ite_none_right_eq_some, Option.some.injEq] at h
  case setError =>
    split_ifs at h with hpc hpc <;> obtain rfl := Option.some.inj h
    · have hnow := s.setError_told (Or.inl (hs.told hpc))
      obtain ⟨lastError, he⟩ := s.setError_eq s.worker.error
      rw [he] at hnow ⊢
      exact ⟨by simp [goto], fun hoff _ => hserving hoff (by simp [hpc]), fun _ => rfl,
        fun _ _ => hnow, by simp [goto]⟩
    · exact .of_reconnecting (hs.reconnecting (by simp [hpc])) (by simp [backOff])
  case loadStop =>
    obtain ⟨hpc, rfl⟩ := h
    cases hstop : s.stopRequested
    · exact ⟨by simp [goto], fun hoff _ => hserving hoff (by simp [hpc]), fun _ => rfl,
        by simp [goto], by simp [goto]⟩
    · exact ⟨by simp [goto], by simp [goto], fun _ => rfl, by simp [goto], by simp [goto, hstop]⟩
  case checkStop =>
    obtain ⟨hpc, rfl⟩ := h
    split_ifs with hends
    · refine ⟨by simp [goto], by simp [goto], fun _ => rfl, by simp [goto], fun _ hstop => ?_⟩
      have hoff : config.autoReconnect = false := by
        simpa [show s.stopRequested = false from hstop] using hends
      exact ⟨hoff, hfailing hoff (Or.inr (Or.inr hpc))⟩
    · have hreconnect : config.autoReconnect = true := by
        by_contra hoff
        exact hends (Or.inl hoff)
      exact .of_reconnecting hreconnect (by simp [backOff])
  case countFailure =>
    obtain ⟨hpc, rfl⟩ := h
    have hnow : config.autoReconnect = false → s.lastError ≠ "" := fun hoff =>
      hfailing hoff (Or.inl hpc)
    have hopen : config.autoReconnect = false → s.device.isOpen = true := fun hoff =>
      hserving hoff (by simp [hpc])
    refine ⟨?_, fun hoff _ => hopen hoff, ?_, fun hoff _ => hnow hoff, ?_⟩ <;> split_ifs <;> simp
  case closeLost =>
    obtain ⟨hpc, rfl⟩ := h
    exact ⟨by simp [goto], by simp [goto], fun _ => rfl,
      fun hoff _ => hfailing hoff (Or.inr (Or.inl hpc)), by simp [goto]⟩
  case closeOnExit =>
    obtain ⟨hpc, rfl⟩ := h
    exact ⟨by simp [goto], by simp [goto], fun _ => rfl, by simp [goto],
      fun _ hstop => hs.leaving (Or.inl hpc) hstop⟩
  case exitRunning =>
    obtain ⟨hpc, rfl⟩ := h
    exact ⟨by simp [goto], by simp [goto], fun _ => rfl, by simp [goto], by simp [goto]⟩
  case deliver now =>
    obtain ⟨hpc, rfl⟩ := h
    have hopen : config.autoReconnect = false → s.device.isOpen = true := fun hoff =>
      hserving hoff (by simp [hpc])
    refine ⟨?_, fun hoff _ => hopen hoff, ?_, ?_, ?_⟩ <;> simp only [goto] <;> split_ifs <;> simp
  case callbackEnds throws =>
    obtain ⟨hpc, rfl⟩ := h
    have hopen : config.autoReconnect = false → s.device.isOpen = true := fun hoff =>
      hserving hoff (by simp [hpc])
    cases throws <;> exact ⟨by simp [goto], fun hoff _ => hopen hoff, fun _ => rfl, by simp [goto],
      by simp [goto]⟩
  case countEmpty | countThrow | countDelivered =>
    obtain ⟨hpc, rfl⟩ := h
    exact ⟨by simp [goto, endCycle], fun hoff _ => hserving hoff (by simp [hpc]), fun _ => rfl,
      by simp [goto, endCycle], by simp [goto, endCycle]⟩
  -- The rest belongs to another connection.
  case reopen sdk =>
    obtain ⟨hpc, rfl⟩ := h
    refine .of_reconnecting (hs.reconnecting (by simp [hpc])) ?_
    cases (s.device.open config sdk).2 <;> simp
  case testPredicate | testAfterTimeout =>
    obtain ⟨hpc, rfl⟩ := h
    refine .of_reconnecting (hs.reconnecting (by simp [hpc])) ?_
    simp only [goto, Worker.afterBackOff]
    split_ifs <;> simp
  all_goals
    obtain ⟨hpc, rfl⟩ := h
    exact .of_reconnecting (hs.reconnecting (by simp [hpc])) (by simp [goto])

/-- What the thread and its owner leave behind for supervision. -/
structure Enduring (config : LidarConfig) (s : Lidar κ) : Prop where
  supervised : Supervised s
  thread : Serving config s
  cleared : s.owner.pc.cleared = true → s.stopRequested = false
  connected : s.owner.pc.connected = true → s.device.isOpen = true
  ended : s.owner.pc = .startAssign → s.running = false → Faulted config s

/-- A thread that goes down without a request goes down behind an error. -/
theorem workerStep_goesDown {s t : Lidar κ} {event : WorkerEvent} (hs : Supervised s)
    (hserving : Serving config s) (h : s.workerStep config event = some t)
    (hstop : s.stopRequested = false) (hdown : t.running = false) : Faulted config t := by
  obtain ⟨hlive, -, -, -, -, hsame | ⟨-, hexited⟩⟩ := workerStep_frame h
  · rw [hsame, (hs.live hlive).1] at hdown
    cases hdown
  · have hnext := workerStep_next h
    rw [hexited] at hnext
    have hpc : s.worker.pc = .exitRunning := by
      cases hplace : s.worker.pc <;> simp [hplace, WorkerPc.next] at hnext ⊢
    have herror : t.lastError = s.lastError := by
      cases event <;> simp [workerStep, hpc] at h
      rw [← h]
      rfl
    obtain ⟨hoff, htext⟩ := hserving.leaving (Or.inr hpc) hstop
    exact ⟨hoff, herror ▸ htext⟩

theorem workerStep_enduring {s t : Lidar κ} {event : WorkerEvent} (hs : Enduring config s)
    (h : s.workerStep config event = some t) : Enduring config t := by
  obtain ⟨hlive, -, howner, -, hstop, -⟩ := workerStep_frame h
  have hplace := (hs.supervised.live hlive).2.2
  refine ⟨workerStep_supervised hs.supervised h, workerStep_serving hs.thread h, ?_, ?_, ?_⟩ <;>
    rw [howner]
  · rw [hstop]
    exact hs.cleared
  · intro hpc
    cases hown : s.owner.pc <;> simp [hown] at hpc hplace
  · intro hpc
    exact workerStep_goesDown hs.supervised hs.thread h (hs.cleared (by simp [hpc]))

/-- The owner touches what the thread left only where no thread is left. -/
theorem ownerStep_enduring {s t : Lidar κ} {event : OwnerEvent κ} (hs : Enduring config s)
    (h : s.ownerStep config event = some t) : Enduring config t := by
  have ht := ownerStep_supervised hs.supervised h
  have hexited : s.owner.pc.leavesThread = false → s.worker.pc = .exited :=
    hs.supervised.exited_of_place
  have hgone : s.worker.pc = .exited → ∀ {u : Lidar κ}, u.worker = s.worker →
      Serving config u := by
    intro hpc u hu
    rw [← hu] at hpc
    exact ⟨by simp [hpc], by simp [hpc], by simp [hpc], by simp [hpc], by simp [hpc]⟩
  cases event <;> simp only [ownerStep, Option.ite_none_right_eq_some, Option.some.injEq] at h
  case stop =>
    obtain ⟨-, rfl⟩ := h
    exact ⟨ht, { hs.thread with leaving := by simp }, by simp, by simp, by simp⟩
  case notify =>
    obtain ⟨-, rfl⟩ := h
    refine ⟨ht, ?_, by simp, by simp, by simp⟩
    by_cases hblocked : s.worker.pc = .blocked
    · exact .of_reconnecting (hs.thread.reconnecting (by simp [hblocked])) (by simp [hblocked])
    · simp only [hblocked, if_false]
      exact hs.thread.withOwner _ _
  case join =>
    obtain ⟨-, rfl⟩ := h
    exact ⟨ht, hs.thread.withOwner _ _, by simp, by simp, by simp⟩
  case close =>
    split_ifs at h with hpc hpc <;> obtain rfl := Option.some.inj h <;>
      exact ⟨ht, hgone (hexited (by simp [hpc])) rfl, by simp, by simp, by simp⟩
  case clearRunning =>
    split_ifs at h with hpc hpc <;> obtain rfl := Option.some.inj h <;>
      exact ⟨ht, hgone (hexited (by simp [hpc])) rfl, by simp, by simp, by simp⟩
  case start callback =>
    obtain ⟨-, rfl⟩ := h
    refine ⟨ht, hs.thread.withOwner _ _, ?_, ?_, ?_⟩ <;> dsimp only <;> split_ifs <;> simp
  case clearStop =>
    obtain ⟨hpc, rfl⟩ := h
    exact ⟨ht, hgone (hexited (by simp [hpc])) rfl, by simp, by simp, by simp⟩
  case «open» sdk =>
    obtain ⟨hpc, rfl⟩ := h
    have hopen := RpLidarDevice.open_isOpen config s.device sdk
    refine ⟨ht, hgone (hexited (by simp [hpc])) rfl, fun _ => hs.cleared (by simp [hpc]), ?_, ?_⟩
    all_goals cases hok : (s.device.open config sdk).2 <;> simp
    exact hopen.mpr hok
  case countConnect =>
    obtain ⟨hpc, rfl⟩ := h
    exact ⟨ht, hgone (hexited (by simp [hpc])) rfl, fun _ => hs.cleared (by simp [hpc]),
      fun _ => hs.connected (by simp [hpc]), by simp⟩
  case setRunning =>
    obtain ⟨hpc, rfl⟩ := h
    exact ⟨ht, hgone (hexited (by simp [hpc])) rfl, fun _ => hs.cleared (by simp [hpc]),
      fun _ => hs.connected (by simp [hpc]), by simp⟩
  case spawn failure =>
    obtain ⟨hpc, rfl⟩ := h
    have hopen := hs.connected (by simp [hpc])
    have hup := hs.supervised.spawning hpc
    cases failure with
    | some what =>
      exact ⟨ht, hgone (hexited (by simp [hpc])) rfl, by simp, by simp, by simp⟩
    | none =>
      exact ⟨ht, ⟨by simp, fun _ _ => hopen, fun _ => rfl, by simp, by simp⟩,
        fun _ => hs.cleared (by simp [hpc]), by simp, by simp [hup]⟩
  case assign =>
    obtain ⟨-, rfl⟩ := h
    split_ifs at ht ⊢
    · exact ⟨ht, hs.thread.withOwner _ _, by simp, by simp, by simp⟩
    · exact ⟨ht, hs.thread.withOwner _ _, by simp, by simp, by simp⟩
  case setError =>
    have hkept : s.lastError ≠ "" → (s.setError s.owner.error).lastError ≠ "" := fun htext =>
      s.setError_told (Or.inr htext)
    obtain ⟨lastError, he⟩ := s.setError_eq s.owner.error
    rw [he] at h hkept
    split_ifs at h with hpc hpc <;> obtain rfl := Option.some.inj h
    · refine ⟨ht, { hs.thread with failing := ?_, leaving := ?_ }, by simp, by simp, by simp⟩
      · exact fun hoff hplace => hkept (hs.thread.failing hoff hplace)
      · exact fun hplace hstop =>
          ⟨(hs.thread.leaving hplace hstop).1, hkept (hs.thread.leaving hplace hstop).2⟩
    · exact ⟨ht, hgone (hexited (by simp [hpc])) rfl, by simp, by simp, by simp⟩

theorem new_enduring : Enduring config (new : Lidar κ) :=
  ⟨new_supervised, ⟨by simp [new], by simp [new], fun _ => rfl, by simp [new], by simp [new]⟩,
    by simp [new], by simp [new], by simp [new]⟩

/-- `start` returns with its last store: of the message of a failure, or of the thread. -/
theorem start_returns {s t : Lidar κ} {event : OwnerEvent κ}
    (hstarts : s.owner.pc.stops = true → s.owner.pc = .idle)
    (hcall : s.owner.pc = .idle → ∃ callback, event = .start callback)
    (h : s.ownerStep config event = some t) (hidle : t.owner.pc = .idle) :
    event = .setError ∨ event = .assign ∧ s.owner.pc = .startAssign := by
  cases event <;> simp only [ownerStep, Option.ite_none_right_eq_some, Option.some.injEq] at h
  case setError => exact Or.inl rfl
  case assign => exact Or.inr ⟨rfl, h.1⟩
  case clearRunning =>
    split_ifs at h with hpc hpc
    · exact absurd (hstarts (by simp [hpc])) (by simp [hpc])
    · obtain rfl := Option.some.inj h
      cases hidle
  case close => split_ifs at h <;> obtain rfl := Option.some.inj h <;> cases hidle
  case «open» sdk =>
    obtain ⟨-, rfl⟩ := h
    cases hok : (s.device.open config sdk).2 <;> simp [hok] at hidle
  case spawn failure =>
    obtain ⟨-, rfl⟩ := h
    cases failure <;> cases hidle
  case start callback =>
    obtain ⟨-, rfl⟩ := h
    dsimp only at hidle
    split_ifs at hidle
  all_goals
    obtain ⟨-, rfl⟩ := h
    cases hidle

end Lidar

namespace TcpServer
variable {ι : Type*}

/-- A call of `start` fails at once, or with the last store of the failure taken back. -/
def StartFails (s : TcpServer ι) (event : OwnerEvent) : Prop :=
  event = .start ∧ s.running = true ∨ event = .clearPending

theorem start_fails {s t : TcpServer ι} {event : OwnerEvent} (hfails : s.StartFails event)
    (hstarts : s.owner.pc.stops = true → s.owner.pc = .idle) (h : s.ownerStep event = some t) :
    t.owner.pc = .idle := by
  rcases hfails with ⟨rfl, hrunning⟩ | rfl <;>
    simp only [ownerStep, Option.ite_none_right_eq_some, Option.some.injEq] at h
  · obtain ⟨-, rfl⟩ := h
    simp [hrunning]
  · split_ifs at h with hpc hpc
    · exact absurd (hstarts (by simp [hpc])) (by simp [hpc])
    · obtain rfl := Option.some.inj h
      rfl

/-- A call of `start` that returns without having failed has stored the thread. -/
theorem start_returns {s t : TcpServer ι} {event : OwnerEvent}
    (hstarts : s.owner.pc.stops = true → s.owner.pc = .idle)
    (hcall : s.owner.pc = .idle → event = .start) (h : s.ownerStep event = some t)
    (hidle : t.owner.pc = .idle) (hfails : ¬ s.StartFails event) : event = .spawn true := by
  cases event <;> simp only [ownerStep, Option.ite_none_right_eq_some, Option.some.injEq,
    Option.map_eq_some_iff] at h
  case start =>
    obtain ⟨-, rfl⟩ := h
    cases hrunning : s.running <;> simp [hrunning, StartFails] at hidle hfails
  case clearPending => exact absurd (Or.inr rfl) hfails
  case spawn succeeds =>
    obtain ⟨-, rfl⟩ := h
    cases succeeds
    · simp at hidle
    · rfl
  case clearRunning =>
    split_ifs at h with hpc hpc
    · exact absurd (hstarts (by simp [hpc])) (by simp [hpc])
    · obtain rfl := Option.some.inj h
      cases hidle
  case signal event =>
    obtain ⟨hpc, -⟩ := h
    exact absurd (hstarts (by simp [hpc])) (by simp [hpc])
  case resetEnds => split_ifs at h <;> obtain rfl := Option.some.inj h <;> cases hidle
  case openWake succeeds =>
    obtain ⟨-, rfl⟩ := h
    cases succeeds <;> cases hidle
  case listen succeeds =>
    obtain ⟨-, rfl⟩ := h
    cases succeeds <;> cases hidle
  all_goals
    obtain ⟨-, rfl⟩ := h
    cases hidle

end TcpServer

namespace Application
open CommandLine Machine

/-- What ends a run of the application, with the text printed for an acquisition that stopped. -/
inductive Ending
  | startFailed
  | signalled
  | acquisitionStopped (error : String)
  deriving DecidableEq, Repr

def Ending.exitCode : Ending → ℕ
  | .signalled => kExitSuccess
  | _ => kExitFailure

inductive RunEvent
  | begun
  | ended (ending : Ending)
  deriving DecidableEq, Repr

def lastRun (w : List RunEvent) : List Ending :=
  w.foldl (fun endings event => match event with
    | .begun => []
    | .ended ending => endings ++ [ending]) []

@[simp] theorem lastRun_begun (w : List RunEvent) : lastRun (w ++ [.begun]) = [] := by
  simp [lastRun]

@[simp] theorem lastRun_ended (w : List RunEvent) (ending : Ending) :
    lastRun (w ++ [.ended ending]) = lastRun w ++ [ending] := by
  simp [lastRun]

variable (options : Options)

/-- The beginning of `run`, the failure of one of its start-up steps, and the two ends of
`supervise`. -/
def runEvent (s : Application) : Action → List RunEvent
  | .main .run => [.begun]
  | .main (.installSignals succeeds) => if succeeds then [] else [.ended .startFailed]
  | .main (.openCan kernel) =>
    if options.noCan = false ∧ (s.canBus.open options.canbus kernel).2 = false then
      [.ended .startFailed]
    else []
  | .main (.server .start) =>
    if s.pc = .startServer ∧ s.server.running then [.ended .startFailed] else []
  | .main (.server .clearPending) => if s.pc = .startServer then [.ended .startFailed] else []
  | .main (.lidar .setError) => if s.pc = .startLidar then [.ended .startFailed] else []
  | .main (.wait (.signal .int)) | .main (.wait (.signal .term)) => [.ended .signalled]
  | .main .checkRunning =>
    if s.lidar.running then [] else [.ended (.acquisitionStopped s.lidar.lastError)]
  | _ => []

def runEvents (capacity : ℕ) (as : List Action) : List RunEvent :=
  trace (step options) (runEvent options) (new capacity) as

@[simp] def Pc.underWay : Pc → Bool
  | .installSignals | .openCan | .startServer | .constructLidar | .startLidar | .waitSignal
  | .checkRunning => true
  | _ => false

/-- How the exit code relates to the endings so far. -/
structure Concluded (w : List RunEvent) (pc : Pc) (exitCode : Option ℕ) : Prop where
  code : exitCode = (lastRun w).head?.map Ending.exitCode
  atMost : (lastRun w).length ≤ 1
  underWay : pc.underWay = true → lastRun w = []
  behind : pc.underWay = false → .begun ∈ w → lastRun w ≠ []
  excused : ∀ error, .ended (.acquisitionStopped error) ∈ w →
    options.lidar.autoReconnect = false ∧ error ≠ ""

/-- The lidar under supervision: it runs, or it has failed for good. -/
def Watched (s : Application) : Prop :=
  s.pc = .waitSignal ∨ s.pc = .checkRunning →
    s.lidar.stopRequested = false ∧ (s.lidar.running = false → s.lidar.Faulted options.lidar)

structure Overseen (w : List RunEvent) (s : Application) : Prop where
  enduring : s.lidar.Enduring options.lidar
  watched : Watched options s
  concluded : Concluded options w s.pc s.exitCode

variable {options} {w : List RunEvent} {v : List Milestone}

theorem new_overseen (capacity : ℕ) : Overseen options [] (new capacity) where
  enduring := Lidar.new_enduring
  watched h := by simp [new] at h
  concluded := ⟨rfl, by simp [lastRun], fun _ => rfl, by simp, by simp⟩

theorem Concluded.move {pc pc' : Pc} {exitCode : Option ℕ} (hs : Concluded options w pc exitCode)
    (hpc : pc'.underWay = pc.underWay) : Concluded options w pc' exitCode :=
  ⟨hs.code, hs.atMost, hpc ▸ hs.underWay, hpc ▸ hs.behind, hs.excused⟩

theorem Concluded.end {pc pc' : Pc} {exitCode : Option ℕ} {ending : Ending}
    (hs : Concluded options w pc exitCode) (hpc : pc.underWay = true)
    (hpc' : pc'.underWay = false)
    (hexcused : ∀ error, ending = .acquisitionStopped error →
      options.lidar.autoReconnect = false ∧ error ≠ "") :
    Concluded options (w ++ [.ended ending]) pc' (some ending.exitCode) := by
  have hnone := hs.underWay hpc
  refine ⟨by simp [hnone], by simp [hnone], fun h => ?_, by simp [hnone], ?_⟩
  · rw [hpc'] at h
    cases h
  · intro error herror
    rcases List.mem_append.mp herror with hbefore | hnow
    · exact hs.excused error hbefore
    · have hending := List.mem_singleton.mp hnow
      exact hexcused error (RunEvent.ended.inj hending).symm

theorem Concluded.begin {pc : Pc} {exitCode : Option ℕ} (hs : Concluded options w pc exitCode) :
    Concluded options (w ++ [.begun]) .installSignals none := by
  refine ⟨by simp, by simp, by simp, by simp, ?_⟩
  intro error herror
  exact hs.excused error (by simpa using herror)

/-! The components' part of a step. -/

theorem Watched.of_acquisition {s : Application} {lidar : Lidar Unit} {callback : CallbackPc}
    {event : Lidar.WorkerEvent} (hs : Overseen options w s)
    (h : s.lidar.workerStep options.lidar event = some lidar) :
    Watched options { s with lidar := lidar, callback := callback } := by
  intro hpc
  have hstop := (hs.watched hpc).1
  have hsame := (Lidar.workerStep_frame h).2.2.2.2.1
  exact ⟨hsame.trans hstop,
    Lidar.workerStep_goesDown hs.enduring.supervised hs.enduring.thread h hstop⟩

theorem acquisitionStep_overseen {s t : Application} {event : Lidar.WorkerEvent}
    (hs : Overseen options w s) (h : s.acquisitionStep options event = some t) :
    Overseen options w t := by
  rcases acquisitionStep_spec h with ⟨lidar, callback, hstep, rfl⟩
  exact ⟨Lidar.workerStep_enduring hs.enduring hstep, .of_acquisition hs hstep, hs.concluded⟩

theorem callbackStep_overseen {s t : Application} {event : CallbackEvent}
    (hs : Overseen options w s) (h : s.callbackStep options event = some t) :
    Overseen options w t := by
  rcases callbackStep_spec h with ⟨-, server, canBus, callback, -, -, -, rfl⟩
  exact ⟨hs.enduring, hs.watched, hs.concluded⟩

theorem runEvent_server (s : Application) (event : TcpServer.OwnerEvent) :
    (s.pc = .startServer ∧ s.server.StartFails event →
      runEvent options s (.main (.server event)) = [.ended .startFailed]) ∧
    (¬ (s.pc = .startServer ∧ s.server.StartFails event) →
      runEvent options s (.main (.server event)) = []) := by
  cases event <;> simp [runEvent, TcpServer.StartFails]

theorem startServer_overseen {s : Application} {server : TcpServer Unit}
    {event : TcpServer.OwnerEvent} (hv : Wired options v s) (hs : Overseen options w s)
    (hpc : s.pc = .startServer) (hcall : s.server.owner.pc = .idle → event = .start)
    (h : s.server.ownerStep event = some server) :
    Overseen options (w ++ runEvent options s (.main (.server event)))
      ({ s with server := server, listening := s.listeningAfter event }.serverReturns event) := by
  rcases hv.place hpc with ⟨hheld, -, hserver, -⟩
  simp only [Pc.holdsLidar] at hheld
  by_cases hfails : s.server.StartFails event
  · have hidle := TcpServer.start_fails hfails hserver h
    have hspawn : event ≠ .spawn true := by
      rcases hfails with ⟨rfl, -⟩ | rfl <;> simp
    rw [(runEvent_server s event).1 ⟨hpc, hfails⟩]
    simp only [serverReturns, hidle, hpc, hspawn, shutdown, hheld, ne_eq, not_true_eq_false,
      if_false, reduceCtorEq, Bool.false_eq_true]
    exact ⟨hs.enduring, by simp [Watched], hs.concluded.end (by simp [hpc]) rfl (by simp)⟩
  · rw [(runEvent_server s event).2 (fun hboth => hfails hboth.2), List.append_nil]
    by_cases hidle : server.owner.pc = .idle
    · obtain rfl := TcpServer.start_returns hserver hcall h hidle hfails
      simp only [serverReturns, hidle, hpc, ne_eq, not_true_eq_false, if_false, if_true,
        reduceCtorEq]
      exact ⟨hs.enduring, by simp [Watched], hs.concluded.move (by simp [hpc])⟩
    · simp only [serverReturns, ne_eq, hidle, not_false_eq_true, if_true]
      exact ⟨hs.enduring, hs.watched, hs.concluded⟩

theorem stopServer_overseen {s : Application} {server : TcpServer Unit}
    {event : TcpServer.OwnerEvent} (hs : Overseen options w s) (hpc : s.pc = .stopServer) :
    Overseen options (w ++ runEvent options s (.main (.server event)))
      ({ s with server := server, listening := s.listeningAfter event }.serverReturns event) := by
  rw [(runEvent_server s event).2 (by simp [hpc]), List.append_nil]
  unfold serverReturns
  split_ifs
  · exact ⟨hs.enduring, hs.watched, hs.concluded⟩
  · exact ⟨hs.enduring, by simp [Watched], hs.concluded.move (by simp [hpc])⟩

theorem startLidar_overseen {s : Application} {lidar : Lidar Unit} {event : Lidar.OwnerEvent Unit}
    (hv : Wired options v s) (hs : Overseen options w s) (hpc : s.pc = .startLidar)
    (hcall : s.lidar.owner.pc = .idle → event = .start (some ()))
    (h : s.lidar.ownerStep options.lidar event = some lidar) :
    Overseen options (w ++ runEvent options s (.main (.lidar event)))
      ({ s with lidar := lidar }.lidarReturns event) := by
  have hstarts := (hv.place hpc).2.1.1
  have henduring := Lidar.ownerStep_enduring hs.enduring h
  by_cases hidle : lidar.owner.pc = .idle
  · rcases Lidar.start_returns hstarts (fun hi => ⟨_, hcall hi⟩) h hidle with
      rfl | ⟨rfl, hassign⟩
    · simp only [runEvent, lidarReturns, hidle, hpc, ne_eq, not_true_eq_false, if_false, if_true,
        reduceCtorEq]
      exact ⟨henduring, by simp [Watched], hs.concluded.end (by simp [hpc]) rfl (by simp)⟩
    · simp only [runEvent, lidarReturns, hidle, hpc, ne_eq, not_true_eq_false, if_false, if_true,
        reduceCtorEq, List.append_nil]
      refine ⟨henduring, fun _ => ?_, hs.concluded.move (by simp [hpc])⟩
      -- The thread may have ended already, before it was stored.
      have hstop := hs.enduring.cleared (by simp [hassign])
      have hended := hs.enduring.ended hassign
      simp only [Lidar.ownerStep, hassign, if_true, Option.some.injEq] at h
      subst h
      split_ifs <;> exact ⟨hstop, hended⟩
  · have hquiet : runEvent options s (.main (.lidar event)) = [] := by
      cases event <;> first | rfl | skip
      simp only [Lidar.ownerStep] at h
      split_ifs at h <;> obtain rfl := Option.some.inj h <;> exact absurd rfl hidle
    rw [hquiet, List.append_nil, lidarReturns, if_pos hidle]
    refine ⟨henduring, ?_, hs.concluded⟩
    simp [Watched, hpc]

theorem stopLidar_overseen {s : Application} {lidar : Lidar Unit} {event : Lidar.OwnerEvent Unit}
    (hv : Wired options v s) (hs : Overseen options w s)
    (hpc : s.pc = .stopLidar ∨ s.pc = .destroyLidar)
    (hcall : s.lidar.owner.pc = .idle → event = .stop)
    (h : s.lidar.ownerStep options.lidar event = some lidar) :
    Overseen options (w ++ runEvent options s (.main (.lidar event)))
      ({ s with lidar := lidar }.lidarReturns event) := by
  have henduring := Lidar.ownerStep_enduring hs.enduring h
  have hquiet : runEvent options s (.main (.lidar event)) = [] := by
    cases event <;> rcases hpc with hpc | hpc <;> simp [runEvent, hpc]
  have hstops : s.lidar.owner.pc.stops = true := by
    rcases hpc with hpc | hpc <;> exact (hv.place hpc).2.1
  have hreleased := (Lidar.ownerStep_stops hv.supervised hv.lidarWinding hstops hcall h).2.2
  have hbehind : ∀ pc : Pc, pc.underWay = false → Concluded options w pc s.exitCode := by
    rcases hpc with hpc | hpc <;>
      exact fun pc hunder => hs.concluded.move (by simpa [hpc] using hunder)
  rw [hquiet, List.append_nil]
  by_cases hidle : lidar.owner.pc = .idle
  · rcases hpc with hpc | hpc <;>
      simp only [lidarReturns, hidle, hpc, ne_eq, not_true_eq_false, if_false, if_true,
        reduceCtorEq]
    · exact ⟨henduring, by simp [Watched], hbehind _ rfl⟩
    · have hgone := hreleased hidle
      rw [releaseLidar, if_neg (by simp [hgone.joined])]
      refine ⟨⟨?_, ?_, by simp [hidle], by simp [hidle], by simp [hidle]⟩, by simp [Watched],
        hbehind _ rfl⟩
      · exact .of_exited hgone.exited (by simp [hidle]) (by simp [hidle]) (by simp [hidle])
      · exact ⟨by simp [hgone.exited], by simp [hgone.exited], by simp [hgone.exited],
          by simp [hgone.exited], by simp [hgone.exited]⟩
  · rw [lidarReturns, if_pos hidle]
    refine ⟨henduring, ?_, hs.concluded⟩
    rcases hpc with hpc | hpc <;> simp [Watched, hpc]

theorem shutdown_underWay (s : Application) : s.shutdown.pc.underWay = false := by
  cases hlidar : s.hasLidar <;> simp [shutdown, hlidar]

theorem leave_underWay (s : Application) : s.leave.pc.underWay = false := by
  cases hleaving : s.leaving <;> simp only [leave, hleaving]
  · rfl
  · exact shutdown_underWay s
  · rfl

theorem Watched.of_behind {s : Application} (h : s.pc.underWay = false) : Watched options s := by
  rintro (hpc | hpc) <;> simp [hpc] at h

theorem wait_overseen {s t : Application} {result : WaitResult} (hs : Overseen options w s)
    (h : s.mainStep options (.wait result) = some t) :
    Overseen options (w ++ runEvent options s (.main (.wait result))) t := by
  simp only [mainStep, Option.ite_none_right_eq_some, Option.some.injEq] at h
  rcases h with ⟨hpc, rfl⟩
  have hquiet : w ++ [] = w := List.append_nil w
  have hsignalled : Overseen options (w ++ [.ended .signalled])
      { s with exitCode := some kExitSuccess }.shutdown :=
    ⟨hs.enduring, .of_behind (shutdown_underWay _),
      hs.concluded.end (by simp [hpc]) (shutdown_underWay _) (by simp)⟩
  cases result with
  | signal number =>
    cases number with
    | int => exact hsignalled
    | term => exact hsignalled
    | pipe => exact hquiet.symm ▸ hs
  | interrupted => exact hquiet.symm ▸ hs
  | timedOut =>
    rw [show runEvent options s (.main (.wait .timedOut)) = [] from rfl, hquiet]
    exact ⟨hs.enduring, fun _ => hs.watched (Or.inl hpc), hs.concluded.move (by simp [hpc])⟩

theorem checkRunning_overseen {s t : Application} (hs : Overseen options w s)
    (h : s.mainStep options .checkRunning = some t) :
    Overseen options (w ++ runEvent options s (.main .checkRunning)) t := by
  simp only [mainStep, Option.ite_none_right_eq_some, Option.some.injEq] at h
  rcases h with ⟨hpc, rfl⟩
  have hwatched := hs.watched (Or.inr hpc)
  cases hrunning : s.lidar.running with
  | true =>
    simp only [runEvent, hrunning, if_true, List.append_nil]
    exact ⟨hs.enduring, fun _ => hwatched, hs.concluded.move (by simp [hpc])⟩
  | false =>
    simp only [runEvent, hrunning, Bool.false_eq_true, if_false]
    refine ⟨hs.enduring, .of_behind (shutdown_underWay _),
      hs.concluded.end (by simp [hpc]) (shutdown_underWay _) ?_⟩
    rintro error ⟨⟩
    exact hwatched.2 hrunning

theorem mainStep_overseen {s t : Application} {event : MainEvent} (hv : Wired options v s)
    (hs : Overseen options w s) (h : s.mainStep options event = some t) :
    Overseen options (w ++ runEvent options s (.main event)) t := by
  have hheld := hv.held
  cases event with
  | server event =>
    simp only [mainStep, Option.ite_none_right_eq_some] at h
    rcases h with ⟨⟨hsome, hcall⟩, h⟩
    rcases Option.map_eq_some_iff.mp h with ⟨server, hserver, rfl⟩
    have hstep := (Option.ite_none_left_eq_some.mp hserver).2
    rcases serverCall_isSome hsome with hpc | hpc
    · simp only [hpc, serverCall, Option.some.injEq] at hcall
      exact startServer_overseen hv hs hpc (fun hidle => (hcall.mp hidle).symm) hstep
    · exact stopServer_overseen hs hpc
  | lidar event =>
    simp only [mainStep, Option.ite_none_right_eq_some] at h
    rcases h with ⟨⟨hsome, hcall⟩, h⟩
    rcases Option.map_eq_some_iff.mp h with ⟨lidar, hlidar, rfl⟩
    have hstep := (Option.ite_none_left_eq_some.mp hlidar).2
    rcases lidarCall_isSome hsome with hpc | hpc | hpc <;>
      simp only [hpc, lidarCall, Option.some.injEq] at hcall
    · exact startLidar_overseen hv hs hpc (fun hidle => (hcall.mp hidle).symm) hstep
    · exact stopLidar_overseen hv hs (Or.inl hpc) (fun hidle => (hcall.mp hidle).symm) hstep
    · exact stopLidar_overseen hv hs (Or.inr hpc) (fun hidle => (hcall.mp hidle).symm) hstep
  | openCan kernel =>
    simp only [mainStep, Option.ite_none_right_eq_some] at h
    rcases h with ⟨hpc, h⟩
    cases hcan : options.noCan with
    | true =>
      rw [if_pos hcan] at h
      obtain rfl := Option.some.inj h
      simp only [runEvent, hcan, Bool.true_eq_false, false_and, if_false, List.append_nil]
      exact ⟨hs.enduring, by simp [Watched], hs.concluded.move (by simp [hpc])⟩
    | false =>
      rw [if_neg (by simp [hcan])] at h
      obtain rfl := Option.some.inj h
      cases hok : (s.canBus.open options.canbus kernel).2 with
      | true =>
        simp only [runEvent, hok, Bool.true_eq_false, and_false, if_false, if_true,
          List.append_nil]
        exact ⟨hs.enduring, by simp [Watched], hs.concluded.move (by simp [hpc])⟩
      | false =>
        simp only [runEvent, hcan, hok, and_self, if_true, Bool.false_eq_true, if_false]
        exact ⟨hs.enduring, by simp [Watched], hs.concluded.end (by simp [hpc]) rfl (by simp)⟩
  | closeCan =>
    simp only [mainStep, Option.ite_none_right_eq_some, Option.some.injEq] at h
    rcases h with ⟨hpc, rfl⟩
    simp only [runEvent, List.append_nil]
    refine ⟨?_, .of_behind (leave_underWay _), ?_⟩
    · rw [(leave_frame _).1]
      exact hs.enduring
    · have hcode : ({ s with canBus := s.canBus.close } : Application).leave.exitCode =
          s.exitCode := by
        cases s.leaving <;> rfl
      rw [hcode]
      exact hs.concluded.move (by rw [leave_underWay, hpc]; rfl)
  | constructLidar =>
    simp only [mainStep, Option.ite_none_right_eq_some, Option.some.injEq] at h
    rcases h with ⟨hpc, rfl⟩
    simp only [runEvent, List.append_nil]
    exact ⟨Lidar.new_enduring, by simp [Watched], hs.concluded.move (by simp [hpc])⟩
  | destroy =>
    simp only [mainStep, Option.ite_none_right_eq_some, Option.some.injEq] at h
    rcases h with ⟨hpc, rfl⟩
    simp only [runEvent, List.append_nil]
    exact ⟨hs.enduring, .of_behind (shutdown_underWay _),
      hs.concluded.move (by rw [shutdown_underWay, hpc]; rfl)⟩
  | run =>
    simp only [mainStep, Option.ite_none_right_eq_some, Option.some.injEq] at h
    rcases h with ⟨hpc, rfl⟩
    exact ⟨hs.enduring, by simp [Watched], hs.concluded.begin⟩
  | installSignals succeeds =>
    simp only [mainStep, Option.ite_none_right_eq_some, Option.some.injEq] at h
    rcases h with ⟨hpc, rfl⟩
    cases succeeds
    · exact ⟨hs.enduring, by simp [Watched], hs.concluded.end (by simp [hpc]) rfl (by simp)⟩
    · simp only [runEvent, if_true, List.append_nil]
      exact ⟨hs.enduring, by simp [Watched], hs.concluded.move (by simp [hpc])⟩
  | wait result => exact wait_overseen hs h
  | checkRunning => exact checkRunning_overseen hs h

/-- Over every run of the application: a run of it comes to at most one ending, and to one where
it has returned; the exit code is that of the ending, zero for SIGINT and SIGTERM alone; and the
acquisition is found stopped only where it may not reconnect, always with an error to print. -/
theorem exit_code_tells_ending {capacity : ℕ} {as : List Action} {s : Application}
    (h : exec (step options) (new capacity) as = some s) :
    let seen := runEvents options capacity as
    s.exitCode = (lastRun seen).head?.map Ending.exitCode ∧
      (lastRun seen).length ≤ 1 ∧
      (.begun ∈ seen → s.pc = .outside ∨ s.pc = .destroyed → lastRun seen ≠ []) ∧
      (s.exitCode = some kExitSuccess ↔ lastRun seen = [.signalled]) ∧
      ∀ error, .ended (.acquisitionStopped error) ∈ seen →
        options.lidar.autoReconnect = false ∧ error ≠ "" := by
  intro seen
  have hkeep : ∀ w (s : Application) a t, (∃ v, Wired options v s) → Overseen options w s →
      s.step options a = some t → Overseen options (w ++ runEvent options s a) t := by
    rintro w s a t ⟨v, hv⟩ hs hstep
    have hstep := (Option.ite_none_left_eq_some.mp hstep).2
    cases a with
    | main event => exact mainStep_overseen hv hs hstep
    | acquisition event =>
      exact (List.append_nil w).symm ▸ acquisitionStep_overseen hs hstep
    | callback event => exact (List.append_nil w).symm ▸ callbackStep_overseen hs hstep
    | io event =>
      rcases Option.map_eq_some_iff.mp hstep with ⟨server, -, rfl⟩
      exact (List.append_nil w).symm ▸ ⟨hs.enduring, hs.watched, hs.concluded⟩
  have hseen : Overseen options seen s :=
    exec_trace_invariant_reached hkeep (fun bs u hu => ⟨_, exec_wired hu⟩) (new_overseen capacity) h
  obtain ⟨hcode, hmost, hunder, hbehind, hexcused⟩ := hseen.concluded
  refine ⟨hcode, hmost, fun hbegun hpc => hbehind ?_ hbegun, ?_, hexcused⟩
  · rcases hpc with hpc | hpc <;> rw [hpc] <;> rfl
  · rw [hcode]
    match hlast : lastRun seen with
    | [] => simp
    | [ending] => cases ending <;> simp [Ending.exitCode, kExitSuccess, kExitFailure]
    | _ :: _ :: _ => simp [hlast] at hmost

def ofLidar : Lidar.Action Unit → Action
  | .worker event => .acquisition event
  | .owner event => .main (.lidar event)

/-- A node that may not reconnect loses its sensor, and notices at the next tick. -/
def lostSensorActions : List Action :=
  ([.main .run, .main (.installSignals true), .main (.openCan ⟨.ok 3, .ok (), .ok ()⟩),
    .main (.server .start), .main (.server .clearStop), .main (.server (.openWake true)),
    .main (.server (.listen true)), .main (.server .setRunning), .main (.server (.spawn true)),
    .main .constructLidar] : List Action) ++
  (Lidar.startActions () ++ (List.replicate 5 Lidar.timeoutActions).flatten).map ofLidar ++
  ([.acquisition .closeLost, .acquisition .checkStop, .acquisition .closeOnExit,
    .acquisition .exitRunning, .main (.wait .timedOut), .main .checkRunning] : List Action)

theorem exit_code_tells_ending_lost :
    ∃ s, exec (step { lidar.autoReconnect := false }) (new 4) lostSensorActions = some s ∧
      s.exitCode = some kExitFailure ∧
      lastRun (runEvents { lidar.autoReconnect := false } 4 lostSensorActions) =
        [.acquisitionStopped "grabScanDataHq failed: operation timed out"] ∧
      s.exitCode = (lastRun (runEvents { lidar.autoReconnect := false } 4
        lostSensorActions)).head?.map Ending.exitCode := by
  have hrun : (exec (step { lidar.autoReconnect := false }) (new 4) lostSensorActions).map
      (fun s => s.exitCode) = some (some kExitFailure) := by
    decide +kernel
  obtain ⟨s, hs, hcode⟩ := Option.map_eq_some_iff.mp hrun
  exact ⟨s, hs, hcode, by decide +kernel, (exit_code_tells_ending hs).1⟩

end Application

end AebNode
