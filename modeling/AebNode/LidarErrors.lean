import AebNode.LidarDelivery
import AebNode.LidarRecovery

/-! What the error counter of the lidar counts: failed grabs, consumers that threw, and cycles
that found the device closed. -/
namespace AebNode.Lidar
open Machine

inductive ReadError
  | grabFailed
  | callbackThrew
  | foundClosed
  deriving DecidableEq, Repr

theorem ReadError.length_eq (w : List ReadError) :
    w.length = w.count .grabFailed + w.count .callbackThrew + w.count .foundClosed := by
  induction w with
  | nil => rfl
  | cons error w ih =>
    cases error <;> simp <;> omega

variable {κ : Type*} (config : LidarConfig)

/-- The errors of one step, judged by the state it starts from. -/
def readError (s : Lidar κ) : Action κ → List ReadError
  | .worker (.acquire sdk) =>
    if ¬ s.device.isOpen then [.foundClosed]
    else match (s.device.grabScan config s.frame.points sdk).2.2 with
      | .ok () => []
      | .error _ => [.grabFailed]
  | .worker (.callbackEnds true) => [.callbackThrew]
  | _ => []

def readErrors (as : List (Action κ)) : List ReadError :=
  trace (step config) (readError config) new as

/-- The thread has met an error and not counted it yet. -/
@[simp] def WorkerPc.uncounted : WorkerPc → ℕ
  | .setGrabError | .countFailure | .countThrow => 1
  | _ => 0

/-- The step in which a cycle of the loop looks at the device. -/
def Action.acquires : Action κ → Bool
  | .worker (.acquire _) => true
  | _ => false

def FindsOpen (s : Lidar κ) (a : Action κ) : Prop :=
  a.acquires = true → s.device.isOpen = true

instance decidableFindsOpen (s : Lidar κ) (a : Action κ) : Decidable (FindsOpen s a) :=
  inferInstanceAs (Decidable (_ → _))

variable {config} {w : List ReadError}

theorem workerStep_readErrors {s t : Lidar κ} {event : WorkerEvent} (hsupervised : Supervised s)
    (hs : w.length = s.stats.readErrors + s.worker.pc.uncounted)
    (h : s.workerStep config event = some t) :
    (w ++ readError config s (.worker event)).length =
      t.stats.readErrors + t.worker.pc.uncounted := by
  rw [List.length_append, hs]
  have hset := (hsupervised.live (workerStep_frame h).1).2.1
  cases event <;> simp only [workerStep, Option.ite_none_right_eq_some, Option.some.injEq] at h
  case acquire sdk =>
    obtain ⟨hpc, h⟩ := h
    cases hopen : s.device.isOpen with
    | false =>
      simp only [hopen, Bool.false_eq_true, not_false_eq_true, if_true, Option.some.injEq] at h
      subst h
      simp [readError, hopen, hpc, goto]
    | true =>
      simp only [hopen, not_true, if_false, Option.some.injEq] at h
      subst h
      cases hgrab : (s.device.grabScan config s.frame.points sdk).2.2 with
      | error message => simp [readError, hopen, hgrab, hpc]
      | ok =>
        dsimp only
        split_ifs <;> simp [readError, hopen, hgrab, hpc]
  case setError =>
    obtain ⟨lastError, he⟩ := s.setError_eq s.worker.error
    rw [he] at h
    split_ifs at h with hpc hpc <;> obtain rfl := Option.some.inj h <;>
      simp [readError, hpc, goto, backOff]
  case deliver now =>
    obtain ⟨hpc, rfl⟩ := h
    simp [readError, hpc, goto, hset]
  case callbackEnds throws =>
    obtain ⟨hpc, rfl⟩ := h
    cases throws <;> simp [readError, hpc, goto]
  case countFailure =>
    obtain ⟨hpc, rfl⟩ := h
    dsimp only
    split_ifs <;> simp [readError, hpc]
  case testPredicate | testAfterTimeout =>
    obtain ⟨hpc, rfl⟩ := h
    simp only [Worker.afterBackOff]
    split_ifs <;> simp [readError, hpc, goto]
  case loadStop | checkStop =>
    obtain ⟨hpc, rfl⟩ := h
    split_ifs <;> simp [readError, hpc, goto, backOff]
  case reopen sdk =>
    obtain ⟨hpc, rfl⟩ := h
    dsimp only
    cases (s.device.open config sdk).2 <;> simp [readError, hpc]
  all_goals
    obtain ⟨hpc, rfl⟩ := h
    simp [readError, hpc, goto, endCycle]

theorem ownerStep_readErrors {s t : Lidar κ} {event : OwnerEvent κ} (hsupervised : Supervised s)
    (hs : w.length = s.stats.readErrors + s.worker.pc.uncounted)
    (h : s.ownerStep config event = some t) :
    (w ++ readError config s (.owner event)).length =
      t.stats.readErrors + t.worker.pc.uncounted := by
  obtain ⟨-, -, hstats, hworker⟩ := ownerStep_frame h
  rw [show readError config s (.owner event) = [] from rfl, List.append_nil, hs, hstats]
  rcases hworker with hsame | ⟨hpc, hwoken⟩ | ⟨hpc, hspawned⟩
  · rw [hsame]
  · simp [hpc, hwoken]
  · have hexited := hsupervised.exited_of_place (by simp [hpc])
    simp [hexited, hspawned]

/-- Step lemma: an error is counted once, between the step that meets it and the next cycle. -/
theorem step_readErrors {s t : Lidar κ} {a : Action κ}
    (hs : Supervised s ∧ w.length = s.stats.readErrors + s.worker.pc.uncounted)
    (h : s.step config a = some t) :
    Supervised t ∧
      (w ++ readError config s a).length = t.stats.readErrors + t.worker.pc.uncounted := by
  refine ⟨step_supervised hs.1 h, ?_⟩
  simp only [step, Option.ite_none_left_eq_some] at h
  cases a with
  | worker event => exact workerStep_readErrors hs.1 hs.2 h.2
  | owner event => exact ownerStep_readErrors hs.1 hs.2 h.2

theorem exec_readErrors {as : List (Action κ)} {s : Lidar κ}
    (h : exec (step config) new as = some s) :
    (readErrors config as).length = s.stats.readErrors + s.worker.pc.uncounted := by
  have hkeep : ∀ w (s : Lidar κ) a t,
      Supervised s ∧ w.length = s.stats.readErrors + s.worker.pc.uncounted →
      s.step config a = some t →
      Supervised t ∧
        (w ++ readError config s a).length = t.stats.readErrors + t.worker.pc.uncounted :=
    fun _ _ _ _ hs hstep => step_readErrors hs hstep
  exact (exec_trace_invariant hkeep (w := []) ⟨new_supervised, rfl⟩ h).2

theorem findsOpen_iff {s : Lidar κ} {a : Action κ} :
    (∀ error ∈ readError config s a, error ≠ .foundClosed) ↔ FindsOpen s a := by
  cases a with
  | owner event => simp [readError, FindsOpen, Action.acquires]
  | worker event =>
    cases event with
    | acquire sdk =>
      cases hopen : s.device.isOpen with
      | false => simp [readError, FindsOpen, Action.acquires, hopen]
      | true =>
        cases hgrab : (s.device.grabScan config s.frame.points sdk).2.2 <;>
          simp [readError, FindsOpen, Action.acquires, hopen, hgrab]
    | callbackEnds throws => cases throws <;> simp [readError, FindsOpen, Action.acquires]
    | _ => simp [readError, FindsOpen, Action.acquires]

/-- The counter at every head of the loop, over every run with any number of restarts: it tells
the failed grabs and the consumers that threw exactly if no cycle found the device closed. -/
theorem read_errors_iff {as : List (Action κ)} {s : Lidar κ}
    (h : exec (step config) new as = some s) (hhead : s.worker.pc = .loopHead) :
    s.stats.readErrors =
        (readErrors config as).count .grabFailed + (readErrors config as).count .callbackThrew ↔
      Along FindsOpen (step config) new as := by
  have hcount := exec_readErrors h
  rw [ReadError.length_eq, hhead] at hcount
  have hclosed : (readErrors config as).count .foundClosed = 0 ↔
      Along FindsOpen (step config) new as := by
    have hall : (∀ error ∈ readErrors config as, error ≠ .foundClosed) ↔ _ :=
      forall_mem_trace_iff h
    simp only [findsOpen_iff] at hall
    rw [← hall, List.count_eq_zero]
    constructor
    · rintro hnone error herror rfl
      exact hnone herror
    · exact fun hnone hmem => hnone _ hmem rfl
  rw [← hclosed]
  simp only [WorkerPc.uncounted, add_zero] at hcount
  omega

/-- A consumer that throws and a link that is lost and comes back. -/
def lostAndFoundActions : List (Action Unit) :=
  startActions () ++ deliverActions nearRevolution ⟨5000000, by decide⟩ true ++
  (List.replicate 5 timeoutActions).flatten ++
  ([.worker .closeLost, .worker .checkStop, .worker .testPredicate, .worker .block,
    .worker .timeOut, .worker .testAfterTimeout, .worker (.reopen goodBringUp),
    .worker .countConnect] : List (Action Unit))

theorem read_errors_lost_and_found : ∃ s : Lidar Unit,
    exec (step {}) new lostAndFoundActions = some s ∧ s.worker.pc = .loopHead ∧
      s.stats.readErrors = 6 ∧
      s.stats.readErrors = (readErrors {} lostAndFoundActions).count .grabFailed +
        (readErrors {} lostAndFoundActions).count .callbackThrew := by
  have hrun : (exec (step {}) new lostAndFoundActions).map
      (fun s : Lidar Unit => (s.worker.pc, s.stats.readErrors)) = some (.loopHead, 6) := by
    decide +kernel
  obtain ⟨s, hs, hlast⟩ := Option.map_eq_some_iff.mp hrun
  obtain ⟨hhead, hcount⟩ := Prod.mk.inj hlast
  exact ⟨s, hs, hhead, hcount, (read_errors_iff hs hhead).mpr (by decide +kernel)⟩

/-- A link that is lost and does not come back at the first attempt, and the cycle after it. -/
def lostActions : List (Action Unit) :=
  backOffActions ++ ([.worker .testPredicate, .worker .block, .worker .timeOut,
    .worker .testAfterTimeout, .worker (.reopen { goodBringUp with createLidarDriver := false }),
    .worker .setError, .worker .testPredicate, .worker .block, .worker .timeOut,
    .worker .testAfterTimeout, .worker .loadStop,
    .worker (.acquire ⟨⟨true, .ok⟩, []⟩), .worker .countFailure] : List (Action Unit))

/-- Five grabs have failed, and the counter says six. -/
theorem closed_cycle_counted : ∃ s : Lidar Unit,
    exec (step {}) new lostActions = some s ∧ s.worker.pc = .loopHead ∧
      s.stats.readErrors = 6 ∧ (readErrors {} lostActions).count .grabFailed = 5 ∧
      (readErrors {} lostActions).count .callbackThrew = 0 := by
  have hrun : (exec (step {}) new lostActions).map
      (fun s : Lidar Unit => (s.worker.pc, s.stats.readErrors)) = some (.loopHead, 6) := by
    decide +kernel
  obtain ⟨s, hs, hlast⟩ := Option.map_eq_some_iff.mp hrun
  obtain ⟨hhead, hcount⟩ := Prod.mk.inj hlast
  exact ⟨s, hs, hhead, hcount, by decide +kernel, by decide +kernel⟩

def Stats.total (stats : Stats) : ℕ :=
  stats.framesDelivered + stats.readErrors + stats.connects + stats.emptyFrames

theorem step_total {s t : Lidar κ} {a : Action κ} (h : s.step config a = some t) :
    t.stats.total ≤ s.stats.total + 1 := by
  simp only [step, Option.ite_none_left_eq_some] at h
  obtain ⟨-, h⟩ := h
  cases a with
  | worker event =>
    cases event <;> simp only [workerStep] at h <;>
      grind [Stats.total, goto, endCycle, backOff, setError]
  | owner event =>
    cases event <;> simp only [ownerStep] at h <;>
      grind [Stats.total, goto, endCycle, backOff, setError]

/-- The counters of a run are bounded by its steps, so those of the source, which are 64 bits wide,
do not wrap below 2 ^ 64 of these. -/
theorem stats_bounded {as : List (Action κ)} {s : Lidar κ}
    (h : exec (step config) new as = some s) : s.stats.total ≤ as.length := by
  have hbound := @exec_le_length _ _ _ (fun s : Lidar κ => s.stats.total)
    (fun _ _ _ ht => step_total ht) _ _ _ h
  simpa [new, Stats.total] using hbound

end AebNode.Lidar
