import AebNode.LidarLifecycle

/-! What reaches the consumer of a lidar. Over a whole run the callback gets the revolutions
that saw something, each once and in order, numbered and stamped. -/
namespace AebNode.Lidar
open Machine

variable {κ : Type*}

/-- What can be seen of a run from outside: the grabs that succeeded, the readings of the clock
and the calls of the consumer. -/
inductive Event (κ : Type*)
  | grabbed (revolution : Revolution)
  | clockRead (now : SteadyTime)
  | invoked (callback : κ) (frame : ScanFrame ℚ)

def observe (config : LidarConfig) (s : Lidar κ) : Action κ → List (Event κ)
  | .worker (.acquire sdk) =>
    match (s.device.grabScan config s.frame.points sdk).2.2 with
    | .ok () => [.grabbed sdk]
    | .error _ => []
  | .worker (.deliver now) =>
    .clockRead now :: (s.callback.map fun callback => .invoked callback (s.stamped now)).toList
  | _ => []

def deliverable (w : List (Event κ)) : List (List (ScanPoint ℚ)) :=
  (w.filterMap fun
    | .grabbed revolution => some revolution.points
    | _ => none).filter (· ≠ [])

def clockReads (w : List (Event κ)) : List SteadyTime :=
  w.filterMap fun
    | .clockRead now => some now
    | _ => none

def invocations (w : List (Event κ)) : List (ScanFrame ℚ) :=
  w.filterMap fun
    | .invoked _ frame => some frame
    | _ => none

def pending (s : Lidar κ) : List (List (ScanPoint ℚ)) :=
  if s.worker.pc = .deliver then [s.frame.points] else []

/-- The calls of the consumer not yet counted. -/
def inFlight (s : Lidar κ) : ℕ :=
  if s.worker.pc = .inCallback ∨ s.worker.pc = .countThrow ∨ s.worker.pc = .countDelivered then 1
  else 0

theorem deliverable_append (w v : List (Event κ)) :
    deliverable (w ++ v) = deliverable w ++ deliverable v := by
  simp [deliverable]

theorem clockReads_append (w v : List (Event κ)) :
    clockReads (w ++ v) = clockReads w ++ clockReads v := by
  simp [clockReads]

theorem invocations_append (w v : List (Event κ)) :
    invocations (w ++ v) = invocations w ++ invocations v := by
  simp [invocations]

theorem deliverable_pos {w : List (Event κ)} {points : List (ScanPoint ℚ)} {p : ScanPoint ℚ}
    (hpoints : points ∈ deliverable w) (hp : p ∈ points) : 0 < p.distanceMm := by
  simp only [deliverable, List.mem_filter, List.mem_filterMap] at hpoints
  obtain ⟨⟨event, -, hevent⟩, -⟩ := hpoints
  cases event with
  | grabbed revolution =>
    obtain rfl := Option.some.inj hevent
    exact Revolution.points_pos hp
  | clockRead now => cases hevent
  | invoked callback frame => cases hevent

/-- How the frame in the thread's hands relates to what has been seen so far. -/
structure Delivered (w : List (Event κ)) (s : Lidar κ) : Prop where
  supervised : Supervised s
  points : deliverable w = (invocations w).map ScanFrame.points ++ s.pending
  number : s.nextSequence = .ofNat (invocations w).length
  numbers : ∀ (i : ℕ) (frame : ScanFrame ℚ), (invocations w)[i]? = some frame →
    frame.sequence = UInt32.ofNat i
  counted : s.stats.framesDelivered + s.inFlight = (invocations w).length
  stamps : (invocations w).map ScanFrame.timestampUs = (clockReads w).map nowMicros

theorem new_delivered : Delivered [] (new : Lidar κ) where
  supervised := new_supervised
  points := rfl
  number := rfl
  numbers i frame h := by simp [invocations] at h
  counted := rfl
  stamps := rfl

/-- The steps on the way of a frame from the device to its being counted. -/
def WorkerEvent.delivers : WorkerEvent → Bool
  | .acquire _ | .deliver _ | .countDelivered => true
  | _ => false

/-- A state that differs in nothing a frame depends on. -/
def SameDelivery (s t : Lidar κ) : Prop :=
  t.pending = s.pending ∧ t.inFlight = s.inFlight ∧ t.nextSequence = s.nextSequence ∧
    t.stats.framesDelivered = s.stats.framesDelivered

variable {config : LidarConfig}

theorem workerStep_sameDelivery {s t : Lidar κ} {event : WorkerEvent}
    (h : s.workerStep config event = some t) (he : event.delivers = false) :
    SameDelivery s t := by
  cases event <;> first | contradiction | simp only [workerStep, Option.ite_none_right_eq_some,
    Option.some.injEq] at h
  case setError =>
    obtain ⟨lastError, hs⟩ := s.setError_eq s.worker.error
    rw [hs] at h
    split_ifs at h with hpc hpc <;> obtain rfl := Option.some.inj h <;>
      simp [SameDelivery, pending, inFlight, goto, backOff, hpc]
  case loadStop =>
    obtain ⟨hpc, rfl⟩ := h
    cases hstop : s.stopRequested <;> simp [SameDelivery, pending, inFlight, goto, hpc]
  case callbackEnds throws =>
    obtain ⟨hpc, rfl⟩ := h
    cases throws <;> simp [SameDelivery, pending, inFlight, goto, hpc]
  case countFailure =>
    obtain ⟨hpc, rfl⟩ := h
    simp only [SameDelivery, pending, inFlight, hpc]
    split_ifs <;> simp_all
  case checkStop =>
    obtain ⟨hpc, rfl⟩ := h
    split_ifs <;> simp [SameDelivery, pending, inFlight, goto, backOff, hpc]
  case testPredicate =>
    obtain ⟨hpc, rfl⟩ := h
    cases hstop : s.stopRequested <;> cases hnext : s.worker.reopenNext <;>
      simp [SameDelivery, pending, inFlight, goto, Worker.afterBackOff, hpc, hnext]
  case testAfterTimeout =>
    obtain ⟨hpc, rfl⟩ := h
    cases hnext : s.worker.reopenNext <;>
      simp [SameDelivery, pending, inFlight, goto, Worker.afterBackOff, hpc, hnext]
  case reopen sdk =>
    obtain ⟨hpc, rfl⟩ := h
    cases (s.device.open config sdk).2 <;> simp [SameDelivery, pending, inFlight, hpc]
  all_goals
    obtain ⟨hpc, rfl⟩ := h
    simp [SameDelivery, pending, inFlight, goto, endCycle, hpc]

theorem ownerStep_sameDelivery {s t : Lidar κ} {event : OwnerEvent κ} (hs : Supervised s)
    (h : s.ownerStep config event = some t) : SameDelivery s t := by
  obtain ⟨hframe, hnumber, hstats, hworker⟩ := ownerStep_frame h
  have hcount : t.stats.framesDelivered = s.stats.framesDelivered := by rw [hstats]
  refine ⟨?_, ?_, hnumber, hcount⟩
  all_goals
    rcases hworker with hsame | ⟨hblocked, hwoken⟩ | ⟨hspawn, hstarted⟩
    · simp [pending, inFlight, hsame, hframe]
    · simp [pending, inFlight, hwoken, hblocked]
    · have hexited := hs.exited_of_place (by simp [hspawn])
      simp [pending, inFlight, hstarted, hexited]

theorem Delivered.of_same {w : List (Event κ)} {s t : Lidar κ} (hs : Delivered w s)
    (ht : Supervised t) (hsame : SameDelivery s t) : Delivered w t := by
  obtain ⟨hpending, hflight, hnumber, hcount⟩ := hsame
  exact ⟨ht, by rw [hpending, hs.points], by rw [hnumber, hs.number], hs.numbers,
    by rw [hcount, hflight, hs.counted], hs.stamps⟩

/-- One acquisition: the device is closed, or it fails and keeps the frame, or the frame gets the
points of this revolution. -/
theorem acquire_cases {s t : Lidar κ} {sdk : Revolution}
    (h : s.workerStep config (.acquire sdk) = some t) :
    s.worker.pc = .acquire ∧
      ((∃ message device worker,
          (s.device.grabScan config s.frame.points sdk).2.2 = .error message ∧
          (worker.pc = .countFailure ∨ worker.pc = .setGrabError) ∧
          t = { s with device := device, worker := worker }) ∨
        ∃ device worker, (s.device.grabScan config s.frame.points sdk).2.2 = .ok () ∧
          worker.pc = (if sdk.points = [] then .countEmpty else .deliver) ∧
          t = { s with
            device := device
            frame := { s.frame with points := sdk.points }
            worker := worker }) := by
  simp only [workerStep, Option.ite_none_right_eq_some] at h
  obtain ⟨hpc, h⟩ := h
  refine ⟨hpc, ?_⟩
  obtain ⟨message, hfailed, -⟩ | ⟨hgrabbed, hopen, -⟩ :=
    RpLidarDevice.grabScan_spec config s.device s.frame.points sdk
  · simp only [hfailed] at h
    refine Or.inl ⟨message, ?_⟩
    by_cases hopen : s.device.isOpen = true
    · rw [if_neg (by simp [hopen])] at h
      exact ⟨_, _, by rw [hfailed], Or.inr rfl, (Option.some.inj h).symm⟩
    · rw [if_pos hopen] at h
      exact ⟨_, _, by rw [hfailed], Or.inl rfl, (Option.some.inj h).symm⟩
  · simp only [hgrabbed, hopen, not_true, if_false] at h
    exact Or.inr ⟨_, _, by rw [hgrabbed], rfl, (Option.some.inj h).symm⟩

theorem acquire_delivered {w : List (Event κ)} {s t : Lidar κ} {sdk : Revolution}
    (hs : Delivered w s) (h : s.workerStep config (.acquire sdk) = some t) :
    Delivered (w ++ observe config s (.worker (.acquire sdk))) t := by
  have ht := workerStep_supervised hs.supervised h
  obtain ⟨hpc, ⟨message, device, worker, hfailed, hworker, rfl⟩ |
    ⟨device, worker, hgrabbed, hworker, rfl⟩⟩ := acquire_cases h
  · simp only [observe, hfailed, List.append_nil]
    refine hs.of_same ht ?_
    obtain hworker | hworker := hworker <;>
      simp [SameDelivery, pending, inFlight, hpc, hworker]
  · have hpoints := hs.points
    have hcounted := hs.counted
    simp only [pending, inFlight, hpc] at hpoints hcounted
    simp only [observe, hgrabbed]
    -- A revolution seen is no callback and no reading of the clock.
    have hinvoked : invocations (w ++ [.grabbed sdk]) = invocations w := by
      simp [invocations]
    have hread : clockReads (w ++ [.grabbed sdk]) = clockReads w := by
      simp [clockReads]
    by_cases hempty : sdk.points = [] <;> simp only [hempty, if_true, if_false] at hworker
    all_goals
      refine ⟨ht, ?_, ?_, ?_, ?_, ?_⟩
      · rw [deliverable_append, hinvoked, hpoints]
        simp [deliverable, pending, hworker, hempty]
      · rw [hinvoked]
        exact hs.number
      · rw [hinvoked]
        exact hs.numbers
      · rw [hinvoked, inFlight, hworker]
        exact hcounted
      · rw [hinvoked, hread]
        exact hs.stamps

theorem deliver_delivered {w : List (Event κ)} {s t : Lidar κ} {now : SteadyTime}
    (hs : Delivered w s) (h : s.workerStep config (.deliver now) = some t) :
    Delivered (w ++ observe config s (.worker (.deliver now))) t := by
  have ht := workerStep_supervised hs.supervised h
  simp only [workerStep, Option.ite_none_right_eq_some, Option.some.injEq] at h
  obtain ⟨hpc, rfl⟩ := h
  obtain ⟨-, hset, -⟩ := hs.supervised.live (by simp [hpc])
  obtain ⟨callback, hcallback⟩ := Option.isSome_iff_exists.mp hset
  have hpending : s.pending = [s.frame.points] := by simp [pending, hpc]
  have hseen : observe config s (.worker (.deliver now)) =
      [.clockRead now, .invoked callback (s.stamped now)] := by
    simp [observe, hcallback]
  have hnew : invocations (w ++ [.clockRead now, .invoked callback (s.stamped now)]) =
      invocations w ++ [s.stamped now] := invocations_append _ _
  rw [hseen]
  refine ⟨ht, ?_, ?_, ?_, ?_, ?_⟩
  · rw [deliverable_append, hnew, hs.points, hpending]
    simp [deliverable, pending, goto, stamped, hset]
  · simp [hnew, goto, hs.number]
  · intro i frame hi
    rw [hnew, List.getElem?_append] at hi
    split_ifs at hi with hlt
    · exact hs.numbers i frame hi
    · simp only [List.getElem?_singleton, Option.ite_none_right_eq_some, Option.some.injEq] at hi
      obtain ⟨hlast, rfl⟩ := hi
      obtain rfl : i = (invocations w).length := by omega
      exact hs.number
  · have hcounted := hs.counted
    simp only [inFlight, hpc] at hcounted
    simp [hnew, inFlight, goto, hset] at hcounted ⊢
    omega
  · rw [hnew, clockReads_append, List.map_append, List.map_append, hs.stamps]
    rfl

theorem countDelivered_delivered {w : List (Event κ)} {s t : Lidar κ}
    (hs : Delivered w s) (h : s.workerStep config .countDelivered = some t) :
    Delivered w t := by
  have ht := workerStep_supervised hs.supervised h
  simp only [workerStep, Option.ite_none_right_eq_some, Option.some.injEq] at h
  obtain ⟨hpc, rfl⟩ := h
  refine ⟨ht, ?_, hs.number, hs.numbers, ?_, hs.stamps⟩
  · rw [hs.points]
    simp [pending, endCycle, hpc]
  · have hcounted := hs.counted
    simpa [inFlight, endCycle, hpc] using hcounted

theorem step_delivered {w : List (Event κ)} {s t : Lidar κ} {a : Action κ}
    (hs : Delivered w s) (h : s.step config a = some t) :
    Delivered (w ++ observe config s a) t := by
  have ht := step_supervised hs.supervised h
  simp only [step, Option.ite_none_left_eq_some] at h
  obtain ⟨-, h⟩ := h
  cases a with
  | owner event =>
    rw [show observe config s (.owner event) = [] from rfl, List.append_nil]
    exact hs.of_same ht (ownerStep_sameDelivery hs.supervised h)
  | worker event =>
    cases he : event.delivers with
    | false =>
      have hsilent : observe config s (.worker event) = [] := by
        cases event <;> first | contradiction | rfl
      rw [hsilent, List.append_nil]
      exact hs.of_same ht (workerStep_sameDelivery h he)
    | true =>
      cases event <;> first | contradiction | skip
      case acquire sdk => exact acquire_delivered hs h
      case deliver now => exact deliver_delivered hs h
      case countDelivered =>
        rw [show observe config s (.worker .countDelivered) = [] from rfl, List.append_nil]
        exact countDelivered_delivered hs h

theorem nowMicros_mono {a b : SteadyTime} (h : a ≤ b) : nowMicros a ≤ nowMicros b := by
  have hle : a.val / 1000 ≤ b.val / 1000 := Nat.div_le_div_right h
  have ha := a.isLt
  have hb := b.isLt
  simp only [nowMicros, UInt64.le_iff_toNat_le, UInt64.toNat_ofNat']
  omega

/-- Over every run, with any restarts, faults and throwing callbacks: the callback is invoked
once, in order, for each successful grab that left a point, but for the one grab on its way to
it; the `i`-th frame carries `i` modulo the range of the counter and exactly the points of its
grab, all at a distance; every call that returned or threw is counted as delivered; and the
stamps never decrease if the clock does not. -/
theorem consumer_gets_revolutions {s : Lidar κ} {as : List (Action κ)}
    (h : exec (step config) new as = some s) :
    let seen := trace (step config) (observe config) new as
    deliverable seen = (invocations seen).map ScanFrame.points ++ s.pending ∧
      (∀ (i : ℕ) (frame : ScanFrame ℚ), (invocations seen)[i]? = some frame →
        frame.sequence.toNat = i % 2 ^ 32 ∧ ∀ p ∈ frame.points, 0 < p.distanceMm) ∧
      s.stats.framesDelivered + s.inFlight = (invocations seen).length ∧
      ((clockReads seen).Pairwise (· ≤ ·) →
        ((invocations seen).map ScanFrame.timestampUs).Pairwise (· ≤ ·)) := by
  intro seen
  have hseen : Delivered seen s := by
    have hkeep : ∀ (w : List (Event κ)) s a t, Delivered w s → step config s a = some t →
        Delivered (w ++ observe config s a) t := fun _ _ _ _ hs ht => step_delivered hs ht
    simpa using exec_trace_invariant hkeep new_delivered h
  refine ⟨hseen.points, fun i frame hi => ⟨?_, fun p hp => ?_⟩, hseen.counted, fun hclock => ?_⟩
  · rw [hseen.numbers i frame hi, UInt32.toNat_ofNat']
  · have hmem : frame.points ∈ deliverable seen := by
      rw [hseen.points]
      exact List.mem_append_left _ (List.mem_map_of_mem (List.mem_of_getElem? hi))
    exact deliverable_pos hmem hp
  · rw [hseen.stamps]
    exact hclock.map _ fun _ _ hle => nowMicros_mono hle

def nearRevolution : Revolution := ⟨⟨true, .ok⟩, [⟨0, 0, 0⟩, ⟨16384, 2000, 47⟩]⟩

/-- A consumer that throws, a failed grab, an empty revolution and a restart. -/
def outageActions : List (Action Unit) :=
  startActions () ++ deliverActions nearRevolution 5000000 true ++
  ([.worker .loadStop, .worker (.acquire ⟨⟨false, .operationTimeout⟩, []⟩), .worker .setError,
    .worker .countFailure, .worker .loadStop, .worker (.acquire ⟨⟨true, .ok⟩, [⟨0, 0, 0⟩]⟩),
    .worker .countEmpty] : List (Action Unit)) ++
  stopActions ++ startActions () ++ deliverActions nearRevolution 9000000 false

theorem consumer_gets_revolutions_outage :
    ∃ s, exec (step {}) new outageActions = some s ∧
      let seen := trace (step {}) (observe {}) new outageActions
      s.stats.framesDelivered = 2 ∧ (invocations seen).length = 2 ∧
        deliverable seen = (invocations seen).map ScanFrame.points ∧
        ((invocations seen).map ScanFrame.timestampUs).Pairwise (· ≤ ·) := by
  have hrun : (exec (step {}) new outageActions).map
      (fun s => (s.stats.framesDelivered, s.worker.pc)) = some (2, .loopHead) := by
    decide +kernel
  obtain ⟨s, hs, hlast⟩ := Option.map_eq_some_iff.mp hrun
  obtain ⟨hcount, hpc⟩ := Prod.mk.inj hlast
  obtain ⟨hpoints, -, hcounted, hstamps⟩ := consumer_gets_revolutions hs
  refine ⟨s, hs, hcount, ?_, ?_, hstamps (by decide +kernel)⟩
  · rw [← hcounted, hcount]
    simp [inFlight, hpc]
  · rw [hpoints]
    simp [pending, hpc]

end AebNode.Lidar
