import AebNode.LidarLifecycle

/-! The recovery policy of the acquisition thread: when it gives a connection up, when it ends,
and in what state it leaves the device. The counter of failures is compared with what happened
on the current connection, as told by a record of the run. -/
namespace AebNode.Lidar
open Machine

/-- What the policy is about. An empty revolution counts as grabbed. -/
inductive Incident
  | spawned
  | stopRequested
  | opened
  | grabFailed
  | grabbed
  deriving DecidableEq, Repr

namespace Incident

def concernsDevice : Incident → Bool
  | .opened | .grabFailed | .grabbed => true
  | _ => false

def tally (failures : ℕ) : Incident → ℕ
  | .opened | .grabbed => 0
  | .grabFailed => failures + 1
  | .spawned | .stopRequested => failures

end Incident

/-- The grabs that failed since the last revolution, or since the connection was made. -/
def failuresInARow (w : List Incident) : ℕ := w.foldl Incident.tally 0

def LostLink (w : List Incident) : Prop :=
  List.replicate maxConsecutiveGrabFailures .grabFailed <:+ w.filter Incident.concernsDevice

/-- Stop was requested, and no thread was spawned since. -/
def StoppedSinceSpawn (w : List Incident) : Prop :=
  ∃ before after, w = before ++ .stopRequested :: after ∧ .spawned ∉ after

@[simp] theorem failuresInARow_append (w v : List Incident) :
    failuresInARow (w ++ v) = v.foldl Incident.tally (failuresInARow w) :=
  List.foldl_append

theorem replicate_failuresInARow (w : List Incident) :
    List.replicate (failuresInARow w) .grabFailed <:+ w.filter Incident.concernsDevice := by
  induction w using List.reverseRecOn with
  | nil => simp [failuresInARow]
  | append_singleton w incident ih =>
    cases incident with
    | grabFailed =>
      obtain ⟨before, hbefore⟩ := ih
      refine ⟨before, ?_⟩
      simp [Incident.tally, List.replicate_succ', ← hbefore]
      rfl
    | opened => simp [Incident.tally]
    | grabbed => simp [Incident.tally]
    | spawned => simpa [Incident.tally, Incident.concernsDevice] using ih
    | stopRequested => simpa [Incident.tally, Incident.concernsDevice] using ih

theorem lostLink_of_le {w : List Incident}
    (h : maxConsecutiveGrabFailures ≤ failuresInARow w) : LostLink w := by
  refine List.IsSuffix.trans ⟨List.replicate (failuresInARow w - maxConsecutiveGrabFailures)
    .grabFailed, ?_⟩ (replicate_failuresInARow w)
  rw [List.replicate_append_replicate, Nat.sub_add_cancel h]

theorem StoppedSinceSpawn.append {w : List Incident} (h : StoppedSinceSpawn w)
    {v : List Incident} (hv : .spawned ∉ v) : StoppedSinceSpawn (w ++ v) := by
  obtain ⟨before, after, rfl, hafter⟩ := h
  refine ⟨before, after ++ v, by simp, ?_⟩
  rw [List.mem_append]
  exact not_or.mpr ⟨hafter, hv⟩

variable {κ : Type*} (config : LidarConfig)

/-- The incidents of one step, judged by the state it starts from. -/
def incident (s : Lidar κ) : Action κ → List Incident
  | .owner .stop => [.stopRequested]
  | .owner (.spawn none) => [.spawned]
  | .owner (.open sdk) | .worker (.reopen sdk) =>
    match (s.device.open config sdk).2 with
    | .ok () => [.opened]
    | .error _ => []
  | .worker (.acquire sdk) =>
    if ¬ s.device.isOpen then []
    else match (s.device.grabScan config s.frame.points sdk).2.2 with
      | .ok () => [.grabbed]
      | .error _ => [.grabFailed]
  | _ => []

def incidents (as : List (Action κ)) : List Incident :=
  trace (step config) (incident config) new as

/-- Good reasons for the thread to end. -/
def Dismissed (w : List Incident) : Prop :=
  StoppedSinceSpawn w ∨ config.autoReconnect = false ∧ maxConsecutiveGrabFailures ≤ failuresInARow w

/-- The counter and the device at each place of the thread. While a device is open, the counter
tells the failures in a row on it; without one it starts from zero as a new connection is made. -/
def Tallied (w : List Incident) (isOpen : Bool) (worker : Worker) : Prop :=
  match worker.pc with
  | .loopHead | .acquire =>
    (config.autoReconnect = false → isOpen = true) ∧
      (isOpen = true → failuresInARow w = worker.consecutiveFailures)
  | .setGrabError | .countFailure =>
    (config.autoReconnect = false → isOpen = true) ∧
      (isOpen = true → failuresInARow w = worker.consecutiveFailures + 1)
  | .countEmpty | .deliver | .inCallback | .countThrow | .countDelivered =>
    isOpen = true ∧ failuresInARow w = 0
  | .closeLost =>
    worker.consecutiveFailures = 0 ∧ (config.autoReconnect = false → isOpen = true) ∧
      (isOpen = true → maxConsecutiveGrabFailures ≤ failuresInARow w)
  | .checkStop =>
    worker.consecutiveFailures = 0 ∧ isOpen = false ∧
      (config.autoReconnect = false → maxConsecutiveGrabFailures ≤ failuresInARow w)
  | .testPredicate | .block | .blocked | .testAfterTimeout | .reopen | .setOpenError =>
    worker.consecutiveFailures = 0 ∧ isOpen = false ∧ config.autoReconnect = true
  | .countConnect => worker.consecutiveFailures = 0 ∧ isOpen = true ∧ failuresInARow w = 0
  | .closeOnExit => Dismissed config w
  | .exitRunning => isOpen = false ∧ Dismissed config w
  | .exited => True

/-- The places of `start` at which the device is open or the running flag up, but no thread
runs. -/
@[simp] def OwnerPc.bringsUp : OwnerPc → Bool
  | .startCountConnect | .startSetRunning | .startSpawn | .spawnClearRunning | .spawnClose => true
  | _ => false

/-- The places of `start` between the connection and the thread that will use it. -/
@[simp] def OwnerPc.connected : OwnerPc → Bool
  | .startCountConnect | .startSetRunning | .startSpawn => true
  | _ => false

structure Recovery (w : List Incident) (s : Lidar κ) : Prop where
  supervised : Supervised s
  tallied : Tallied config w s.device.isOpen s.worker
  stopped : s.worker.pc ≠ .exited → s.stopRequested = true → StoppedSinceSpawn w
  cleared : s.owner.pc.prepares = true → s.stopRequested = false
  connected : s.owner.pc.connected = true → s.device.isOpen = true ∧ failuresInARow w = 0
  withdrawn : s.owner.pc = .spawnClose → s.running = false
  ended : s.worker.pc = .exited → s.owner.pc.bringsUp = false →
    s.device.isOpen = false ∧ s.running = false

variable {config} {w : List Incident}

/-- What the thread's place says outlasts incidents that do not concern the device. -/
theorem Tallied.append {isOpen : Bool} {worker : Worker} (h : Tallied config w isOpen worker)
    {v : List Incident} (hv : v.foldl Incident.tally (failuresInARow w) = failuresInARow w)
    (hspawned : .spawned ∉ v) : Tallied config (w ++ v) isOpen worker := by
  have hrow : failuresInARow (w ++ v) = failuresInARow w := by rw [failuresInARow_append, hv]
  have hdismissed : Dismissed config w → Dismissed config (w ++ v) := by
    rintro (hstopped | hlost)
    · exact Or.inl (hstopped.append hspawned)
    · exact Or.inr (hrow ▸ hlost)
  simp only [Tallied, hrow] at h ⊢
  cases hpc : worker.pc <;> simp only [hpc] at h ⊢
  case closeOnExit => exact hdismissed h
  case exitRunning => exact ⟨h.1, hdismissed h.2⟩
  all_goals exact h

theorem grabScan_isOpen (device : RpLidarDevice) (points : List (ScanPoint ℚ))
    (sdk : Revolution) : (device.grabScan config points sdk).1.isOpen = device.isOpen := by
  simp only [RpLidarDevice.grabScan]
  cases hdriver : device.driver with
  | none => rfl
  | some driver =>
    split_ifs <;> simp [RpLidarDevice.isOpen, RpLidarDevice.call, hdriver]

theorem workerStep_tallied {s t : Lidar κ} {event : WorkerEvent} (hs : Recovery config w s)
    (h : s.workerStep config event = some t) :
    Tallied config (w ++ incident config s (.worker event)) t.device.isOpen t.worker := by
  have hinv := hs.tallied
  cases event <;> simp only [workerStep, Option.ite_none_right_eq_some, Option.some.injEq] at h
  case loadStop =>
    obtain ⟨hpc, rfl⟩ := h
    have hstopped := hs.stopped (by simp [hpc])
    simp only [Tallied, hpc] at hinv
    cases hstop : s.stopRequested with
    | true => simpa [Tallied, goto, incident, Dismissed] using Or.inl (hstopped hstop)
    | false => simpa [Tallied, goto, incident] using hinv
  case acquire sdk =>
    obtain ⟨hpc, h⟩ := h
    simp only [Tallied, hpc] at hinv
    by_cases hopen : s.device.isOpen = true
    · simp only [hopen, not_true, if_false, Option.some.injEq] at h
      subst h
      have hrow := hinv.2 hopen
      rcases s.device.grabScan_spec config s.frame.points sdk with ⟨message, hgrab, -⟩ | ⟨hgrab, -⟩
      · simp [Tallied, incident, hopen, hgrab, grabScan_isOpen, Incident.tally, hrow]
      · by_cases hempty : sdk.points = [] <;>
          simp [Tallied, incident, hopen, hgrab, grabScan_isOpen, Incident.tally, hempty]
    · simp only [hopen, Bool.false_eq_true, not_false_eq_true, if_true, Option.some.injEq] at h
      subst h
      simpa [Tallied, goto, incident, hopen] using hinv.1
  case setError =>
    obtain ⟨lastError, he⟩ := s.setError_eq s.worker.error
    rw [he] at h
    split_ifs at h with hpc hpc <;> obtain rfl := Option.some.inj h <;>
      simp only [Tallied, hpc] at hinv
    · simpa [Tallied, goto, incident] using hinv
    · simpa [Tallied, backOff, incident] using hinv
  case countEmpty =>
    obtain ⟨hpc, rfl⟩ := h
    simp only [Tallied, hpc] at hinv
    simp [Tallied, endCycle, incident, hinv]
  case deliver now =>
    obtain ⟨hpc, rfl⟩ := h
    simp only [Tallied, hpc] at hinv
    cases hset : s.callback.isSome <;> simpa [Tallied, goto, incident, hset] using hinv
  case callbackEnds throws =>
    obtain ⟨hpc, rfl⟩ := h
    simp only [Tallied, hpc] at hinv
    cases throws <;> simpa [Tallied, goto, incident] using hinv
  case countThrow =>
    obtain ⟨hpc, rfl⟩ := h
    simp only [Tallied, hpc] at hinv
    simpa [Tallied, goto, incident] using hinv
  case countDelivered =>
    obtain ⟨hpc, rfl⟩ := h
    simp only [Tallied, hpc] at hinv
    simp [Tallied, endCycle, incident, hinv]
  case countFailure =>
    obtain ⟨hpc, rfl⟩ := h
    simp only [Tallied, hpc] at hinv
    by_cases hfew : s.worker.consecutiveFailures + 1 < maxConsecutiveGrabFailures
    · simpa [Tallied, incident, hfew] using hinv
    · simp only [Tallied, incident, hfew, if_false, List.append_nil, true_and]
      refine ⟨hinv.1, fun hopen => ?_⟩
      rw [hinv.2 hopen]
      exact not_lt.mp hfew
  case closeLost =>
    obtain ⟨hpc, rfl⟩ := h
    simp only [Tallied, hpc] at hinv
    simp only [Tallied, goto, incident, List.append_nil, RpLidarDevice.close_isOpen, true_and]
    exact ⟨hinv.1, fun hauto => hinv.2.2 (hinv.2.1 hauto)⟩
  case checkStop =>
    obtain ⟨hpc, rfl⟩ := h
    have hstopped := hs.stopped (by simp [hpc])
    simp only [Tallied, hpc] at hinv
    split_ifs with hleave
    · simp only [Tallied, goto, incident, List.append_nil]
      rcases hleave with hauto | hstop
      · have hauto : config.autoReconnect = false := by simpa using hauto
        exact Or.inr ⟨hauto, hinv.2.2 hauto⟩
      · exact Or.inl (hstopped hstop)
    · simp only [not_or, not_not] at hleave
      simp [Tallied, backOff, hinv, hleave]
  case testPredicate =>
    obtain ⟨hpc, rfl⟩ := h
    simp only [Tallied, hpc] at hinv
    cases hstop : s.stopRequested <;> cases hnext : s.worker.reopenNext <;>
      simp [Tallied, goto, incident, Worker.afterBackOff, hnext, hinv]
  case testAfterTimeout =>
    obtain ⟨hpc, rfl⟩ := h
    simp only [Tallied, hpc] at hinv
    cases hnext : s.worker.reopenNext <;>
      simp [Tallied, goto, incident, Worker.afterBackOff, hnext, hinv]
  case reopen sdk =>
    obtain ⟨hpc, rfl⟩ := h
    simp only [Tallied, hpc] at hinv
    have hopened := s.device.open_isOpen config sdk
    cases hresult : (s.device.open config sdk).2 with
    | ok =>
      simp [Tallied, incident, hresult, hinv, Incident.tally, hopened.mpr hresult]
    | error message =>
      have hclosed : (s.device.open config sdk).1.isOpen = false := by
        rw [Bool.eq_false_iff, ne_eq, hopened, hresult]
        simp
      simp [Tallied, hinv, hclosed]
  case closeOnExit =>
    obtain ⟨hpc, rfl⟩ := h
    simp only [Tallied, hpc] at hinv
    simpa [Tallied, goto, incident] using hinv
  case exitRunning =>
    obtain ⟨hpc, rfl⟩ := h
    simp [Tallied, goto]
  all_goals
    obtain ⟨hpc, rfl⟩ := h
    simp only [Tallied, hpc] at hinv
    simp [Tallied, goto, incident, hinv]

theorem workerStep_exits {s t : Lidar κ} {event : WorkerEvent}
    (h : s.workerStep config event = some t) (hexited : t.worker.pc = .exited) :
    s.worker.pc = .exitRunning ∧ t = { s with running := false }.goto .exited := by
  cases event <;> simp only [workerStep, Option.ite_none_right_eq_some, Option.some.injEq] at h
  case exitRunning => exact ⟨h.1, h.2.symm⟩
  case acquire sdk =>
    obtain ⟨-, h⟩ := h
    by_cases hopen : s.device.isOpen = true
    · simp only [hopen, not_true, if_false, Option.some.injEq] at h
      subst h
      cases hgrab : (s.device.grabScan config s.frame.points sdk).2.2 <;>
        simp only [hgrab, reduceCtorEq] at hexited
      split_ifs at hexited
    · simp only [hopen, Bool.false_eq_true, not_false_eq_true, if_true, Option.some.injEq] at h
      subst h
      simp [goto] at hexited
  case setError =>
    split_ifs at h <;> obtain rfl := Option.some.inj h <;> simp [goto, backOff] at hexited
  case deliver now =>
    obtain ⟨-, rfl⟩ := h
    cases hset : s.callback.isSome <;> simp [goto, hset] at hexited
  case countFailure =>
    obtain ⟨-, rfl⟩ := h
    simp only at hexited
    split_ifs at hexited
  case checkStop =>
    obtain ⟨-, rfl⟩ := h
    split_ifs at hexited <;> simp [goto, backOff] at hexited
  case testPredicate =>
    obtain ⟨-, rfl⟩ := h
    cases hstop : s.stopRequested <;> cases hnext : s.worker.reopenNext <;>
      simp [goto, Worker.afterBackOff, hstop, hnext] at hexited
  case testAfterTimeout =>
    obtain ⟨-, rfl⟩ := h
    cases hnext : s.worker.reopenNext <;> simp [goto, Worker.afterBackOff, hnext] at hexited
  case reopen sdk =>
    obtain ⟨-, rfl⟩ := h
    cases hopened : (s.device.open config sdk).2 <;> simp [hopened] at hexited
  case loadStop =>
    obtain ⟨-, rfl⟩ := h
    cases hstop : s.stopRequested <;> simp [goto, hstop] at hexited
  case callbackEnds throws =>
    obtain ⟨-, rfl⟩ := h
    cases throws <;> simp [goto] at hexited
  all_goals
    obtain ⟨-, rfl⟩ := h
    simp [goto, endCycle] at hexited

theorem workerStep_recovery {s t : Lidar κ} {event : WorkerEvent} (hs : Recovery config w s)
    (h : s.workerStep config event = some t) :
    Recovery config (w ++ incident config s (.worker event)) t := by
  obtain ⟨halive, -, howner, -, hstop, -⟩ := workerStep_frame h
  have hplace := (hs.supervised.live halive).2.2
  have hquiet : .spawned ∉ incident config s (.worker event) := by
    cases event <;> simp only [incident, List.not_mem_nil, not_false_eq_true]
    case acquire sdk =>
      cases s.device.isOpen <;> cases (s.device.grabScan config s.frame.points sdk).2.2 <;> simp
    case reopen sdk => cases (s.device.open config sdk).2 <;> simp
  refine ⟨workerStep_supervised hs.supervised h, workerStep_tallied hs h, fun _ hstopped => ?_,
    fun hprepares => ?_, fun hconnected => ?_, fun hwithdrawn => ?_, fun hexited _ => ?_⟩
  · exact (hs.stopped halive (hstop ▸ hstopped)).append hquiet
  · rw [howner] at hprepares
    cases hpc : s.owner.pc <;> simp [hpc] at hprepares hplace
  · rw [howner] at hconnected
    cases hpc : s.owner.pc <;> simp [hpc] at hconnected hplace
  · rw [howner] at hwithdrawn
    simp [hwithdrawn] at hplace
  · obtain ⟨hpc, rfl⟩ := workerStep_exits h hexited
    have hinv := hs.tallied
    simp only [Tallied, hpc] at hinv
    exact ⟨hinv.1, rfl⟩

/-- The owner's steps keep the tally, and never touch the device while the thread is alive. -/
theorem ownerStep_recovery {s t : Lidar κ} {event : OwnerEvent κ} (hs : Recovery config w s)
    (h : s.ownerStep config event = some t) :
    Recovery config (w ++ incident config s (.owner event)) t := by
  have hsupervised := ownerStep_supervised hs.supervised h
  have hquiet : ∀ v, v.foldl Incident.tally (failuresInARow w) = failuresInARow w →
      .spawned ∉ v → Tallied config (w ++ v) s.device.isOpen s.worker :=
    fun v hv hspawned => hs.tallied.append hv hspawned
  cases event <;> simp only [ownerStep, Option.ite_none_right_eq_some, Option.some.injEq] at h
  case stop =>
    obtain ⟨hpc, rfl⟩ := h
    refine ⟨hsupervised, hquiet [.stopRequested] rfl (by simp),
      fun _ _ => ⟨w, [], rfl, by simp⟩, by simp, by simp, by simp,
      fun hexited _ => hs.ended hexited (by simp [hpc])⟩
  case notify =>
    obtain ⟨hpc, rfl⟩ := h
    simp only [incident, List.append_nil]
    have hinv := hs.tallied
    by_cases hblocked : s.worker.pc = .blocked
    · simp only [Tallied, hblocked] at hinv
      simp only [hblocked, if_true] at hsupervised ⊢
      exact ⟨hsupervised, hinv, fun _ => hs.stopped (by simp [hblocked]), by simp, by simp,
        by simp, by simp⟩
    · simp only [hblocked, if_false] at hsupervised ⊢
      exact ⟨hsupervised, hinv, hs.stopped, by simp, by simp, by simp,
        fun hexited _ => hs.ended hexited (by simp [hpc])⟩
  case join =>
    obtain ⟨⟨hpc, -⟩, rfl⟩ := h
    simp only [incident, List.append_nil]
    exact ⟨hsupervised, hs.tallied, hs.stopped, by simp, by simp, by simp,
      fun hexited _ => hs.ended hexited (by simp [hpc])⟩
  case close =>
    simp only [incident, List.append_nil]
    split_ifs at h with hpc hpc <;> obtain rfl := Option.some.inj h
    · have hexited := hs.supervised.exited_of_place (by simp [hpc])
      refine ⟨hsupervised, by simp [Tallied, hexited], hs.stopped, by simp, by simp, by simp,
        fun _ _ => ⟨RpLidarDevice.close_isOpen _, ?_⟩⟩
      exact (hs.ended hexited (by simp [hpc])).2
    · have hexited := hs.supervised.exited_of_place (by simp [hpc])
      exact ⟨hsupervised, by simp [Tallied, hexited], hs.stopped, by simp, by simp, by simp,
        fun _ _ => ⟨RpLidarDevice.close_isOpen _, hs.withdrawn hpc⟩⟩
  case clearRunning =>
    simp only [incident, List.append_nil]
    split_ifs at h with hpc hpc <;> obtain rfl := Option.some.inj h
    · have hexited := hs.supervised.exited_of_place (by simp [hpc])
      exact ⟨hsupervised, by simp [Tallied, hexited], hs.stopped, by simp, by simp, by simp,
        fun _ _ => ⟨(hs.ended hexited (by simp [hpc])).1, rfl⟩⟩
    · have hexited := hs.supervised.exited_of_place (by simp [hpc])
      exact ⟨hsupervised, by simp [Tallied, hexited], hs.stopped, by simp, by simp, by simp,
        by simp⟩
  case start callback =>
    obtain ⟨hpc, rfl⟩ := h
    simp only [incident, List.append_nil]
    have hended := fun hexited => hs.ended hexited (by simp [hpc])
    split_ifs at hsupervised ⊢ <;>
      exact ⟨hsupervised, hs.tallied, hs.stopped, by simp, by simp, by simp,
        fun hexited _ => hended hexited⟩
  case clearStop =>
    obtain ⟨hpc, rfl⟩ := h
    have hexited := hs.supervised.exited_of_place (by simp [hpc])
    simp only [incident, List.append_nil]
    exact ⟨hsupervised, hs.tallied, by simp, fun _ => rfl, by simp, by simp,
      fun hexited _ => hs.ended hexited (by simp [hpc])⟩
  case «open» sdk =>
    obtain ⟨hpc, rfl⟩ := h
    have hexited := hs.supervised.exited_of_place (by simp [hpc])
    have hopened := s.device.open_isOpen config sdk
    cases hresult : (s.device.open config sdk).2 with
    | ok =>
      refine ⟨by simpa [hresult] using hsupervised, by simp [Tallied, hexited],
        fun hlive => absurd hexited hlive, fun _ => hs.cleared (by simp [hpc]), fun _ => ?_,
        by simp, by simp⟩
      simp [incident, hresult, Incident.tally, hopened.mpr hresult]
    | error message =>
      have hclosed : (s.device.open config sdk).1.isOpen = false := by
        rw [Bool.eq_false_iff, ne_eq, hopened, hresult]
        simp
      refine ⟨by simpa [hresult] using hsupervised, by simp [Tallied, hexited],
        fun hlive => absurd hexited hlive, by simp, by simp, by simp, fun _ _ => ⟨hclosed, ?_⟩⟩
      exact (hs.ended hexited (by simp [hpc])).2
  case countConnect =>
    obtain ⟨hpc, rfl⟩ := h
    simp only [incident, List.append_nil]
    exact ⟨hsupervised, hs.tallied, hs.stopped, fun _ => hs.cleared (by simp [hpc]),
      fun _ => hs.connected (by simp [hpc]), by simp, by simp⟩
  case setRunning =>
    obtain ⟨hpc, rfl⟩ := h
    simp only [incident, List.append_nil]
    exact ⟨hsupervised, hs.tallied, hs.stopped, fun _ => hs.cleared (by simp [hpc]),
      fun _ => hs.connected (by simp [hpc]), by simp, by simp⟩
  case spawn failure =>
    obtain ⟨hpc, rfl⟩ := h
    have hconnected := hs.connected (by simp [hpc])
    cases failure with
    | some what =>
      simp only [incident, List.append_nil]
      exact ⟨hsupervised, hs.tallied, hs.stopped, by simp, by simp, by simp, by simp⟩
    | none =>
      have hstop := hs.cleared (by simp [hpc])
      refine ⟨hsupervised, ?_, fun _ hstopped => ?_, by simp, by simp, by simp, by simp⟩
      · simp [Tallied, incident, Incident.tally, hconnected]
      · simp [hstop] at hstopped
  case assign =>
    obtain ⟨hpc, rfl⟩ := h
    simp only [incident, List.append_nil]
    have hended := fun hexited => hs.ended hexited (by simp [hpc])
    split_ifs at hsupervised ⊢ <;>
      exact ⟨hsupervised, hs.tallied, hs.stopped, by simp, by simp, by simp,
        fun hexited _ => hended hexited⟩
  case setError =>
    simp only [incident, List.append_nil]
    obtain ⟨lastError, he⟩ := s.setError_eq s.owner.error
    rw [he] at h
    split_ifs at h with hpc hpc <;> obtain rfl := Option.some.inj h <;>
      exact ⟨hsupervised, hs.tallied, hs.stopped, by simp, by simp, by simp,
        fun hexited _ => hs.ended hexited (by simp [hpc])⟩

theorem new_recovery : Recovery config [] (new : Lidar κ) :=
  ⟨new_supervised, trivial, by simp [new], by simp [new], by simp [new], by simp [new],
    fun _ _ => ⟨rfl, rfl⟩⟩

theorem exec_recovery {as : List (Action κ)} {s : Lidar κ}
    (h : exec (step config) new as = some s) : Recovery config (incidents config as) s := by
  have hkeep : ∀ w (s : Lidar κ) a t, Recovery config w s → s.step config a = some t →
      Recovery config (w ++ incident config s a) t := by
    intro w s a t hs hstep
    simp only [step, Option.ite_none_left_eq_some] at hstep
    cases a with
    | worker event => exact workerStep_recovery hs hstep.2
    | owner event => exact ownerStep_recovery hs hstep.2
  exact exec_trace_invariant hkeep new_recovery h

/-- The thread closes an open device only where it gives a connection up, or as it ends. -/
theorem workerStep_closes {s t : Lidar κ} {event : WorkerEvent} (hs : Recovery config w s)
    (h : s.workerStep config event = some t) (hopen : s.device.isOpen = true)
    (hclosed : t.device.isOpen = false) :
    maxConsecutiveGrabFailures ≤ failuresInARow w ∨ event = .closeOnExit := by
  have hinv := hs.tallied
  have hsame : t.device = s.device → False := by
    intro hdevice
    rw [hdevice, hopen] at hclosed
    cases hclosed
  cases event <;> simp only [workerStep, Option.ite_none_right_eq_some, Option.some.injEq] at h
  case closeOnExit => exact Or.inr rfl
  case closeLost =>
    simp only [Tallied, h.1] at hinv
    exact Or.inl (hinv.2.2 hopen)
  case reopen sdk =>
    simp only [Tallied, h.1, hopen] at hinv
    exact absurd hinv.2.1 (by simp)
  case acquire sdk =>
    simp only [hopen, not_true, if_false, Option.some.injEq] at h
    obtain ⟨-, rfl⟩ := h
    rw [grabScan_isOpen, hopen] at hclosed
    cases hclosed
  case setError =>
    obtain ⟨lastError, he⟩ := s.setError_eq s.worker.error
    rw [he] at h
    split_ifs at h <;> obtain rfl := Option.some.inj h <;> exact (hsame rfl).elim
  case checkStop =>
    obtain ⟨-, rfl⟩ := h
    split_ifs at hsame <;> exact (hsame rfl).elim
  all_goals
    obtain ⟨-, rfl⟩ := h
    exact (hsame rfl).elim

/-- The recovery policy, over every run and whatever step comes next. The thread closes an open
device only if the last things that happened to it are five failed grabs, or as it ends. It ends
only if stop was requested since it was spawned or, without reconnection, after five such
failures. A thread that has ended leaves the device closed and the running flag down, until a
later `start` brings the device up again. -/
theorem recovery_policy {as : List (Action κ)} {s t : Lidar κ} {a : Action κ}
    (hrun : exec (step config) new as = some s) (h : s.step config a = some t) :
    (∀ event, a = .worker event → s.device.isOpen = true → t.device.isOpen = false →
      LostLink (incidents config as) ∨ event = .closeOnExit) ∧
    (s.worker.pc ≠ .exited → t.worker.pc = .exited →
      StoppedSinceSpawn (incidents config as) ∨
        config.autoReconnect = false ∧ LostLink (incidents config as)) ∧
    (t.worker.pc = .exited → t.owner.pc.bringsUp = false →
      t.device.isOpen = false ∧ t.running = false) := by
  have hs := exec_recovery hrun
  have ht : Recovery config (incidents config (as ++ [a])) t :=
    exec_recovery (exec_append.mpr ⟨s, hrun, by simp [exec, h]⟩)
  simp only [step, Option.ite_none_left_eq_some] at h
  refine ⟨?_, fun halive hexited => ?_, ht.ended⟩
  · rintro event rfl hopen hclosed
    exact (workerStep_closes hs h.2 hopen hclosed).imp_left lostLink_of_le
  · cases a with
    | worker event =>
      obtain ⟨hpc, -⟩ := workerStep_exits h.2 hexited
      have hinv := hs.tallied
      simp only [Tallied, hpc] at hinv
      exact hinv.2.imp_right fun hlost => ⟨hlost.1, lostLink_of_le hlost.2⟩
    | owner event =>
      rcases ownerStep_frame h.2 with ⟨-, -, -, hworker | ⟨-, hworker⟩ | ⟨-, hworker⟩⟩
      · exact absurd (hworker ▸ hexited) halive
      · simp [hworker] at hexited
      · simp [hworker] at hexited

def timeoutActions : List (Action Unit) :=
  [.worker .loadStop, .worker (.acquire ⟨⟨false, .operationTimeout⟩, []⟩), .worker .setError,
    .worker .countFailure]

/-- A run of failures that ends in the first back-off, at the test of its predicate. -/
def backOffActions : List (Action Unit) :=
  startActions () ++ (List.replicate 5 timeoutActions).flatten ++
  ([.worker .closeLost, .worker .checkStop] : List (Action Unit))

/-- Four timeouts, an empty revolution, and a run of five timeouts that ends the thread. -/
def unpluggedActions : List (Action Unit) :=
  startActions () ++ (List.replicate 4 timeoutActions).flatten ++
  ([.worker .loadStop, .worker (.acquire ⟨⟨true, .ok⟩, [⟨0, 0, 0⟩]⟩), .worker .countEmpty] :
    List (Action Unit)) ++
  (List.replicate 5 timeoutActions).flatten ++
  ([.worker .closeLost, .worker .checkStop, .worker .closeOnExit] : List (Action Unit))

theorem recovery_policy_unplugged :
    let config : LidarConfig := { autoReconnect := false }
    ∃ s t : Lidar Unit, exec (step config) new unpluggedActions = some s ∧
      s.step config (.worker .exitRunning) = some t ∧
      (StoppedSinceSpawn (incidents config unpluggedActions) ∨
        config.autoReconnect = false ∧ LostLink (incidents config unpluggedActions)) ∧
      t.device.isOpen = false ∧ t.running = false := by
  intro config
  have hrun : (exec (step config) new unpluggedActions).map
      (fun s => (s.worker.pc, s.owner.pc)) = some (.exitRunning, .idle) := by decide +kernel
  obtain ⟨s, hs, hplaces⟩ := Option.map_eq_some_iff.mp hrun
  obtain ⟨hworker, howner⟩ := Prod.mk.inj hplaces
  have hstep : s.step config (.worker .exitRunning) =
      some ({ s with running := false }.goto .exited) := by
    simp [step, workerStep, hworker, howner]
  obtain ⟨-, hends, hleft⟩ := recovery_policy hs hstep
  refine ⟨s, _, hs, hstep, hends (by simp [hworker]) rfl, hleft rfl ?_⟩
  simp [goto, howner]

end AebNode.Lidar
