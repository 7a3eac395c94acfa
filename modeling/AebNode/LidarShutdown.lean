import AebNode.LidarRecovery

/-! How a stop request reaches the acquisition thread: the notification against a back-off that
is about to block, and what the thread still does once it has seen the flag. -/
namespace AebNode.Lidar
open Machine

variable {κ : Type*}

/-- The control flow of the acquisition thread. -/
def WorkerPc.next : WorkerPc → List WorkerPc
  | .loopHead => [.closeOnExit, .acquire]
  | .acquire => [.countFailure, .setGrabError, .countEmpty, .deliver]
  | .setGrabError => [.countFailure]
  | .countEmpty => [.loopHead]
  | .deliver => [.inCallback, .countThrow]
  | .inCallback => [.countThrow, .countDelivered]
  | .countThrow => [.countDelivered]
  | .countDelivered => [.loopHead]
  | .countFailure => [.loopHead, .closeLost]
  | .closeLost => [.checkStop]
  | .checkStop => [.closeOnExit, .testPredicate]
  | .testPredicate => [.reopen, .loopHead, .block]
  | .block => [.blocked]
  | .blocked => [.testPredicate, .testAfterTimeout]
  | .testAfterTimeout => [.reopen, .loopHead]
  | .reopen => [.countConnect, .setOpenError]
  | .countConnect => [.loopHead]
  | .setOpenError => [.testPredicate]
  | .closeOnExit => [.exitRunning]
  | .exitRunning => [.exited]
  | .exited => []

variable {config : LidarConfig}

theorem workerStep_next {s t : Lidar κ} {event : WorkerEvent}
    (h : s.workerStep config event = some t) : t.worker.pc ∈ s.worker.pc.next := by
  cases event <;> simp only [workerStep, Option.ite_none_right_eq_some, Option.some.injEq] at h
  case acquire sdk =>
    obtain ⟨hpc, h⟩ := h
    rw [hpc]
    split_ifs at h <;> obtain rfl := Option.some.inj h
    · dsimp only
      cases (s.device.grabScan config s.frame.points sdk).2.2 <;> simp [WorkerPc.next]
    · dsimp only
      cases (s.device.grabScan config s.frame.points sdk).2.2 <;> simp [WorkerPc.next]
    · simp [WorkerPc.next, goto]
  case setError =>
    split_ifs at h with hpc hpc <;> obtain rfl := Option.some.inj h <;>
      simp [hpc, WorkerPc.next, goto, backOff]
  case checkStop | countFailure | deliver | callbackEnds | loadStop =>
    obtain ⟨hpc, rfl⟩ := h
    rw [hpc]
    split_ifs <;> simp [WorkerPc.next, goto, backOff]
  case testPredicate | testAfterTimeout =>
    obtain ⟨hpc, rfl⟩ := h
    rw [hpc]
    simp only [Worker.afterBackOff]
    split_ifs <;> simp [WorkerPc.next, goto]
  case reopen sdk =>
    obtain ⟨hpc, rfl⟩ := h
    rw [hpc]
    dsimp only
    cases (s.device.open config sdk).2 <;> simp [WorkerPc.next]
  all_goals
    obtain ⟨hpc, rfl⟩ := h
    simp [hpc, WorkerPc.next, goto, endCycle]

/-! The notification. `stop` stores the flag and notifies without the mutex of the wait. -/

/-- The notification does not come between the test of the predicate and the wait. -/
def Heard (s : Lidar κ) (a : Action κ) : Prop := a = .owner .notify → s.worker.pc ≠ .block

instance decidableHeard [DecidableEq κ] (s : Lidar κ) (a : Action κ) : Decidable (Heard s a) :=
  inferInstanceAs (Decidable (_ → _))

/-- The thread sleeps, or is about to, only while no request is past its notification. -/
def Wakeable (s : Lidar κ) : Prop :=
  s.worker.pc = .block ∨ s.worker.pc = .blocked → s.stopRequested = true →
    s.owner.pc = .stopNotify

/-- The thread decides to sleep only after a test of the predicate that found no request. -/
theorem workerStep_wakeable {s t : Lidar κ} {event : WorkerEvent} (hs : Wakeable s)
    (h : s.workerStep config event = some t) : Wakeable t := by
  obtain ⟨-, -, howner, -, hstop, -⟩ := workerStep_frame h
  have hnext := workerStep_next h
  intro hsleeps hstopped
  rw [hstop] at hstopped
  rw [howner]
  rcases hsleeps with hpc | hpc
  · cases hplace : s.worker.pc <;> simp [hplace, hpc, WorkerPc.next] at hnext
    cases event <;> simp [workerStep, hplace] at h
    rw [← h] at hpc
    cases hreopen : s.worker.reopenNext <;>
      simp [goto, Worker.afterBackOff, hstopped, hreopen] at hpc
  · cases hplace : s.worker.pc <;> simp [hplace, hpc, WorkerPc.next] at hnext
    exact hs (Or.inl hplace) hstopped

theorem ownerStep_wakeable {s t : Lidar κ} {event : OwnerEvent κ} (hs : Wakeable s)
    (hok : Heard s (.owner event)) (h : s.ownerStep config event = some t) : Wakeable t := by
  have hworker := (ownerStep_frame h).2.2.2
  intro hsleeps hstopped
  have hsame : t.worker = s.worker := by
    rcases hworker with hsame | ⟨-, hwoken⟩ | ⟨-, hspawned⟩
    · exact hsame
    · simp [hwoken] at hsleeps
    · simp [hspawned] at hsleeps
  rw [hsame] at hsleeps
  have hbefore : s.stopRequested = true → event = .notify := by
    intro hup
    have hplace := hs hsleeps hup
    cases event <;> simp [ownerStep, hplace] at h
    rfl
  cases event <;> simp only [ownerStep, Option.ite_none_right_eq_some, Option.some.injEq] at h
  case stop => rw [← h.2]
  case clearStop => simp [← h.2] at hstopped
  case notify =>
    obtain ⟨-, rfl⟩ := h
    rcases hsleeps with hpc | hpc
    · exact absurd hpc (hok rfl)
    · have hwoken := congrArg Worker.pc hsame
      simp [hpc] at hwoken
  case setError =>
    obtain ⟨lastError, he⟩ := s.setError_eq s.owner.error
    rw [he] at h
    split_ifs at h <;> obtain rfl := Option.some.inj h <;> cases hbefore hstopped
  case close | clearRunning =>
    split_ifs at h <;> obtain rfl := Option.some.inj h <;> cases hbefore hstopped
  case assign =>
    obtain ⟨-, rfl⟩ := h
    split_ifs at hstopped <;> cases hbefore hstopped
  case spawn failure =>
    obtain ⟨-, rfl⟩ := h
    cases failure <;> cases hbefore hstopped
  all_goals
    obtain ⟨-, rfl⟩ := h
    cases hbefore hstopped

theorem step_wakeable {s t : Lidar κ} {a : Action κ} (hs : Wakeable s) (hok : Heard s a)
    (h : s.step config a = some t) : Wakeable t := by
  simp only [step, Option.ite_none_left_eq_some] at h
  cases a with
  | worker event => exact workerStep_wakeable hs h.2
  | owner event => exact ownerStep_wakeable hs hok h.2

/-- No reachable state has the thread blocked in its back-off with a stop requested and the
notification past, if no notification comes between the test of the predicate and the wait. -/
theorem stop_wakes_back_off {as : List (Action κ)} {s : Lidar κ}
    (hheard : Along Heard (step config) new as) (h : exec (step config) new as = some s)
    (hpc : s.worker.pc = .blocked) (hstopped : s.stopRequested = true) :
    s.owner.pc = .stopNotify := by
  have hkeep : ∀ (s : Lidar κ) a t, Wakeable s → Heard s a → s.step config a = some t →
      Wakeable t := fun _ _ _ hs hok hstep => step_wakeable hs hok hstep
  have hnew : Wakeable (new : Lidar κ) := fun hsleeps => by simp [new] at hsleeps
  exact exec_invariant_along hkeep hnew hheard h (Or.inr hpc) hstopped

/-- A stop request that finds the thread asleep is about to be announced. -/
theorem stop_wakes_back_off_asleep : ∃ s : Lidar Unit,
    exec (step {}) new (backOffActions ++ [.worker .testPredicate, .worker .block, .owner .stop]) =
      some s ∧ s.worker.pc = .blocked ∧ s.owner.pc = .stopNotify := by
  have hrun : (exec (step {}) new (backOffActions ++
      [.worker .testPredicate, .worker .block, .owner .stop])).map
      (fun s : Lidar Unit => (s.worker.pc, s.stopRequested)) = some (.blocked, true) := by
    decide +kernel
  obtain ⟨s, hs, hlast⟩ := Option.map_eq_some_iff.mp hrun
  obtain ⟨hpc, hstopped⟩ := Prod.mk.inj hlast
  exact ⟨s, hs, hpc, stop_wakes_back_off (by decide +kernel) hs hpc hstopped⟩

/-- Both halves of `stop` between the test and the wait: the thread sleeps, and only the timeout
or a spurious wakeup is left to end it. -/
theorem notification_missed : ∃ s : Lidar Unit,
    exec (step {}) new (backOffActions ++
      [.worker .testPredicate, .owner .stop, .owner .notify, .worker .block]) = some s ∧
    s.worker.pc = .blocked ∧ s.stopRequested = true ∧ s.owner.pc = .stopJoin := by
  have hrun : (exec (step {}) new (backOffActions ++
      [.worker .testPredicate, .owner .stop, .owner .notify, .worker .block])).map
      (fun s : Lidar Unit => (s.worker.pc, s.stopRequested, s.owner.pc)) =
      some (.blocked, true, .stopJoin) := by decide +kernel
  obtain ⟨s, hs, hlast⟩ := Option.map_eq_some_iff.mp hrun
  simp only [Prod.mk.injEq] at hlast
  exact ⟨s, hs, hlast⟩

/-! The observation. A thread that has read the flag as set is on its way out. -/

/-- What the law is about: the thread reads the flag as set, uses the device or the consumer, or
ends. -/
inductive ShutdownEvent
  | observed
  | opened
  | grabbed
  | called
  | ended
  deriving DecidableEq, Repr

def ShutdownEvent.acquires : ShutdownEvent → Bool
  | .opened | .grabbed | .called => true
  | .observed | .ended => false

def Informed (w : List ShutdownEvent) : Prop :=
  ∃ before after, w = before ++ .observed :: after ∧ .ended ∉ after

/-- Once informed the thread opens nothing, grabs nothing and calls nobody before it has ended. -/
def Prompt (w : List ShutdownEvent) : Prop :=
  ∀ before event after, w = before ++ event :: after → event.acquires = true → ¬ Informed before

theorem informed_append {w : List ShutdownEvent} {event : ShutdownEvent} :
    Informed (w ++ [event]) ↔ event = .observed ∨ Informed w ∧ event ≠ .ended := by
  constructor
  · rintro ⟨before, after, hw, hafter⟩
    rcases append_singleton_eq_iff.mp hw with ⟨-, -, heq⟩ | ⟨rest, rfl, hinit⟩
    · exact Or.inl heq.symm
    · rw [List.mem_append, not_or, List.mem_singleton] at hafter
      exact Or.inr ⟨⟨before, rest, hinit, hafter.1⟩, Ne.symm hafter.2⟩
  · rintro (rfl | ⟨⟨before, after, rfl, hafter⟩, hne⟩)
    · exact ⟨w, [], rfl, List.not_mem_nil⟩
    · refine ⟨before, after ++ [event], by simp, ?_⟩
      simp [hafter, Ne.symm hne]

theorem prompt_append {w : List ShutdownEvent} {event : ShutdownEvent} (hw : Prompt w)
    (h : event.acquires = true → ¬ Informed w) : Prompt (w ++ [event]) := by
  intro before act after hsplit hacts
  rcases append_singleton_eq_iff.mp hsplit with ⟨-, rfl, rfl⟩ | ⟨rest, -, hinit⟩
  · exact h hacts
  · exact hw before act rest hinit hacts

variable (config) in
/-- What a step shows of it, judged by the state it starts from. Without reconnection the check
after a teardown does not read the flag. -/
def shutdownEvent (s : Lidar κ) : Action κ → List ShutdownEvent
  | .worker .loadStop | .worker .testPredicate | .worker .testAfterTimeout =>
    if s.stopRequested then [.observed] else []
  | .worker .checkStop => if config.autoReconnect ∧ s.stopRequested then [.observed] else []
  | .worker (.acquire _) => if s.device.isOpen then [.grabbed] else []
  | .worker (.deliver _) => if s.callback.isSome then [.called] else []
  | .worker (.reopen _) => [.opened]
  | .worker .exitRunning => [.ended]
  | _ => []

/-- The back-off before a reopening does not end with a stop request. -/
def Undisturbed (s : Lidar κ) (a : Action κ) : Prop :=
  a = .worker .testPredicate ∨ a = .worker .testAfterTimeout →
    s.worker.reopenNext = true → s.stopRequested = false

instance decidableUndisturbed [DecidableEq κ] (s : Lidar κ) (a : Action κ) :
    Decidable (Undisturbed s a) :=
  inferInstanceAs (Decidable (_ → _ → _))

/-- The places an informed thread passes on its way out. -/
def Leaving (s : Lidar κ) : Prop :=
  s.stopRequested = true ∧ (s.worker.pc = .loopHead ∨ s.worker.pc = .closeOnExit ∨
    s.worker.pc = .exitRunning)

structure Obedient (w : List ShutdownEvent) (s : Lidar κ) : Prop where
  supervised : Supervised s
  prompt : Prompt w
  leaving : Informed w → Leaving s

theorem new_obedient : Obedient [] (new : Lidar κ) where
  supervised := new_supervised
  prompt before event after h := by simp at h
  leaving h := by
    obtain ⟨before, after, hw, -⟩ := h
    simp at hw

variable {w : List ShutdownEvent}

/-- An informed thread goes from the head of its loop to the teardown and ends. -/
theorem workerStep_leaving {s t : Lidar κ} {event : WorkerEvent} (hs : Leaving s)
    (h : s.workerStep config event = some t) :
    (Leaving t ∧ (shutdownEvent config s (.worker event) = [] ∨
      shutdownEvent config s (.worker event) = [.observed])) ∨
      shutdownEvent config s (.worker event) = [.ended] := by
  obtain ⟨hstopped, hplace⟩ := hs
  rcases hplace with hpc | hpc | hpc <;>
    cases event <;> simp [workerStep, hpc, hstopped] at h <;> subst h
  · exact Or.inl ⟨⟨by simp [goto, hstopped], Or.inr (Or.inl rfl)⟩,
      Or.inr (by simp [shutdownEvent, hstopped])⟩
  · exact Or.inl ⟨⟨by simp [goto], Or.inr (Or.inr rfl)⟩, Or.inl rfl⟩
  · exact Or.inr rfl

theorem shutdownEvent_cases (s : Lidar κ) (a : Action κ) :
    shutdownEvent config s a = [] ∨ ∃ event, shutdownEvent config s a = [event] := by
  unfold shutdownEvent
  split <;> (try split_ifs) <;> simp

theorem workerStep_observes {s t : Lidar κ} {event : WorkerEvent}
    (hok : Undisturbed s (.worker event)) (h : s.workerStep config event = some t)
    (hobserved : shutdownEvent config s (.worker event) = [.observed]) : Leaving t := by
  cases event
  case loadStop =>
    have hstopped : s.stopRequested = true := by simpa [shutdownEvent] using hobserved
    simp only [workerStep, Option.ite_none_right_eq_some, Option.some.injEq] at h
    obtain ⟨-, rfl⟩ := h
    exact ⟨hstopped, Or.inr (Or.inl (by simp [goto, hstopped]))⟩
  case checkStop =>
    obtain ⟨-, hstopped⟩ : config.autoReconnect = true ∧ s.stopRequested = true := by
      simpa [shutdownEvent] using hobserved
    simp only [workerStep, Option.ite_none_right_eq_some, Option.some.injEq, hstopped, or_true,
      if_true] at h
    obtain ⟨-, rfl⟩ := h
    exact ⟨by simp [goto, hstopped], Or.inr (Or.inl rfl)⟩
  case testPredicate =>
    have hstopped : s.stopRequested = true := by simpa [shutdownEvent] using hobserved
    have hnext : s.worker.reopenNext = false := by
      by_contra hreopen
      have := hok (Or.inl rfl) (by simpa using hreopen)
      simp [hstopped] at this
    simp only [workerStep, Option.ite_none_right_eq_some, Option.some.injEq] at h
    obtain ⟨-, rfl⟩ := h
    exact ⟨hstopped, Or.inl (by simp [goto, hstopped, Worker.afterBackOff, hnext])⟩
  case testAfterTimeout =>
    have hstopped : s.stopRequested = true := by simpa [shutdownEvent] using hobserved
    have hnext : s.worker.reopenNext = false := by
      by_contra hreopen
      have := hok (Or.inr rfl) (by simpa using hreopen)
      simp [hstopped] at this
    simp only [workerStep, Option.ite_none_right_eq_some, Option.some.injEq] at h
    obtain ⟨-, rfl⟩ := h
    exact ⟨hstopped, Or.inl (by simp [goto, Worker.afterBackOff, hnext])⟩
  case acquire sdk => cases hopen : s.device.isOpen <;> simp [shutdownEvent, hopen] at hobserved
  case deliver now => cases hset : s.callback.isSome <;> simp [shutdownEvent, hset] at hobserved
  all_goals simp [shutdownEvent] at hobserved

theorem workerStep_obedient {s t : Lidar κ} {event : WorkerEvent} (hs : Obedient w s)
    (hok : Undisturbed s (.worker event)) (h : s.workerStep config event = some t) :
    Obedient (w ++ shutdownEvent config s (.worker event)) t := by
  have hsupervised := workerStep_supervised hs.supervised h
  by_cases hinformed : Informed w
  · rcases workerStep_leaving (hs.leaving hinformed) h with ⟨hleaving, hshown⟩ | hshown
    · rcases hshown with hshown | hshown
      · rw [hshown, List.append_nil]
        exact ⟨hsupervised, hs.prompt, fun _ => hleaving⟩
      · rw [hshown]
        exact ⟨hsupervised, prompt_append hs.prompt (by simp [ShutdownEvent.acquires]),
          fun _ => hleaving⟩
    · rw [hshown]
      refine ⟨hsupervised, prompt_append hs.prompt (by simp [ShutdownEvent.acquires]), ?_⟩
      simp [informed_append]
  · rcases shutdownEvent_cases s (.worker event) with hshown | ⟨shown, hshown⟩
    · rw [hshown, List.append_nil]
      exact ⟨hsupervised, hs.prompt, fun hi => absurd hi hinformed⟩
    · rw [hshown]
      refine ⟨hsupervised, prompt_append hs.prompt fun _ => hinformed, fun hi => ?_⟩
      rcases informed_append.mp hi with rfl | ⟨hbefore, -⟩
      · exact workerStep_observes hok h hshown
      · exact absurd hbefore hinformed

theorem ownerStep_obedient {s t : Lidar κ} {event : OwnerEvent κ} (hs : Obedient w s)
    (h : s.ownerStep config event = some t) :
    Obedient (w ++ shutdownEvent config s (.owner event)) t := by
  rw [show shutdownEvent config s (.owner event) = [] from rfl, List.append_nil]
  refine ⟨ownerStep_supervised hs.supervised h, hs.prompt, fun hinformed => ?_⟩
  obtain ⟨hstopped, hplace⟩ := hs.leaving hinformed
  have hlive : s.worker.pc ≠ .exited := by
    rcases hplace with hpc | hpc | hpc <;> simp [hpc]
  have hblocked : s.worker.pc ≠ .blocked := by
    rcases hplace with hpc | hpc | hpc <;> simp [hpc]
  obtain ⟨-, -, hleaves⟩ := hs.supervised.live hlive
  have hworker : t.worker = s.worker := by
    rcases (ownerStep_frame h).2.2.2 with hsame | ⟨hpc, -⟩ | ⟨hpc, -⟩
    · exact hsame
    · exact absurd hpc hblocked
    · simp [hpc] at hleaves
  have hstill : t.stopRequested = true := by
    cases event <;> simp only [ownerStep, Option.ite_none_right_eq_some, Option.some.injEq] at h
    case clearStop => simp [h.1] at hleaves
    case stop => rw [← h.2]
    case setError =>
      obtain ⟨lastError, he⟩ := s.setError_eq s.owner.error
      rw [he] at h
      split_ifs at h <;> obtain rfl := Option.some.inj h <;> exact hstopped
    case close | clearRunning =>
      split_ifs at h <;> obtain rfl := Option.some.inj h <;> exact hstopped
    case assign =>
      obtain ⟨-, rfl⟩ := h
      split_ifs <;> exact hstopped
    case spawn failure =>
      obtain ⟨-, rfl⟩ := h
      cases failure <;> exact hstopped
    all_goals
      obtain ⟨-, rfl⟩ := h
      exact hstopped
  rw [Leaving, hworker]
  exact ⟨hstill, hplace⟩

theorem step_obedient {s t : Lidar κ} {a : Action κ} (hs : Obedient w s) (hok : Undisturbed s a)
    (h : s.step config a = some t) : Obedient (w ++ shutdownEvent config s a) t := by
  simp only [step, Option.ite_none_left_eq_some] at h
  cases a with
  | worker event => exact workerStep_obedient hs hok h.2
  | owner event => exact ownerStep_obedient hs h.2

def shutdownEvents (config : LidarConfig) (as : List (Action κ)) : List ShutdownEvent :=
  trace (step config) (shutdownEvent config) new as

/-- Over every run, whenever the stop request arrives: once the thread has read the flag as set
it opens nothing, grabs nothing and calls nobody before it ends, if no back-off before a
reopening ends with the request. -/
theorem informed_thread_ends {as : List (Action κ)} {s : Lidar κ}
    (hok : Along Undisturbed (step config) new as) (h : exec (step config) new as = some s) :
    Prompt (shutdownEvents config as) := by
  have hkeep : ∀ w (s : Lidar κ) a t, Obedient w s → Undisturbed s a → s.step config a = some t →
      Obedient (w ++ shutdownEvent config s a) t :=
    fun _ _ _ _ hs hok hstep => step_obedient hs hok hstep
  exact (exec_trace_invariant_along hkeep new_obedient hok h).prompt

/-- The request arrives in the back-off after a reopening that failed. -/
def stopAbsentActions : List (Action Unit) :=
  backOffActions ++ ([.worker .testPredicate, .worker .block, .worker .timeOut,
    .worker .testAfterTimeout, .worker (.reopen { goodBringUp with createLidarDriver := false }),
    .worker .setError, .worker .testPredicate, .worker .block, .owner .stop, .owner .notify,
    .worker .testPredicate, .worker .loadStop, .worker .closeOnExit, .worker .exitRunning] :
    List (Action Unit))

theorem informed_thread_ends_absent : ∃ s : Lidar Unit,
    exec (step {}) new stopAbsentActions = some s ∧ s.worker.pc = .exited ∧
      Prompt (shutdownEvents {} stopAbsentActions) := by
  have hrun : (exec (step {}) new stopAbsentActions).map (fun s : Lidar Unit => s.worker.pc) =
      some .exited := by decide +kernel
  obtain ⟨s, hs, hpc⟩ := Option.map_eq_some_iff.mp hrun
  exact ⟨s, hs, hpc, informed_thread_ends (by decide +kernel) hs⟩

/-- The request arrives in the back-off before the reopening, which follows all the same. -/
def stopLostLinkActions : List (Action Unit) :=
  backOffActions ++ ([.worker .testPredicate, .worker .block, .owner .stop, .owner .notify,
    .worker .testPredicate, .worker (.reopen goodBringUp), .worker .countConnect,
    .worker .loadStop, .worker .closeOnExit, .worker .exitRunning] : List (Action Unit))

/-- The thread spins the motor up again after it has read the flag as set. -/
theorem informed_thread_reopens : (∃ s : Lidar Unit,
    exec (step {}) new stopLostLinkActions = some s ∧ s.worker.pc = .exited) ∧
      shutdownEvents {} stopLostLinkActions =
        List.replicate 5 .grabbed ++ [.observed, .opened, .observed, .ended] ∧
      ¬ Prompt (shutdownEvents {} stopLostLinkActions) := by
  have hrun : (exec (step {}) new stopLostLinkActions).map (fun s : Lidar Unit => s.worker.pc) =
      some .exited := by decide +kernel
  have hshown : shutdownEvents {} stopLostLinkActions =
      List.replicate 5 .grabbed ++ [.observed, .opened, .observed, .ended] := by decide +kernel
  refine ⟨Option.map_eq_some_iff.mp hrun, hshown, fun hprompt => ?_⟩
  exact hprompt (List.replicate 5 .grabbed ++ [.observed]) .opened [.observed, .ended] hshown rfl
    ⟨List.replicate 5 .grabbed, [], rfl, List.not_mem_nil⟩

end AebNode.Lidar
