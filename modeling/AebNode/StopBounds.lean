import AebNode.LidarShutdown
import AebNode.PacketRoundTrip
import AebNode.ServerLeftovers

/-! How long a requested stop can take. Each thread has a bound on the steps left to it, told from
its place, which every step of its own draws on and no step of another thread adds to, but for
what that thread hands it. -/
namespace AebNode.Lidar
open Machine

variable {κ : Type*} {config : LidarConfig}

/-- The most steps that are left to the acquisition thread once a stop is requested. -/
@[simp] def Worker.remaining (worker : Worker) : ℕ :=
  match worker.pc with
  | .exited => 0
  | .exitRunning => 1
  | .closeOnExit => 2
  | .loopHead | .checkStop => 3
  | .countEmpty | .countDelivered | .countConnect | .closeLost => 4
  | .countThrow | .countFailure | .setOpenError => 5
  | .inCallback | .setGrabError | .reopen => 6
  | .deliver => 7
  | .acquire => 8
  | .testPredicate | .testAfterTimeout => if worker.reopenNext then 7 else 4
  | .blocked => if worker.reopenNext then 8 else 5
  | .block => if worker.reopenNext then 9 else 6

/-- Of these, the uses of the device: a grab, or a reopening after the back-off before it. -/
@[simp] def Worker.uses (worker : Worker) : ℕ :=
  match worker.pc with
  | .acquire | .reopen => 1
  | .testPredicate | .testAfterTimeout | .blocked | .block => if worker.reopenNext then 1 else 0
  | _ => 0

@[simp] def Action.isWorker : Action κ → Bool
  | .worker _ => true
  | .owner _ => false

@[simp] def WorkerEvent.usesDevice : WorkerEvent → Bool
  | .acquire _ | .reopen _ => true
  | _ => false

@[simp] def Action.usesDevice : Action κ → Bool
  | .worker event => event.usesDevice
  | .owner _ => false

theorem Worker.remaining_le (worker : Worker) : worker.remaining ≤ 9 := by
  unfold remaining
  split <;> (try split_ifs) <;> omega

theorem Worker.uses_le (worker : Worker) : worker.uses ≤ 1 := by
  unfold uses
  split <;> (try split_ifs) <;> omega

/-- With the flag up each step of the thread uses up one of those left to it. -/
theorem workerStep_remaining {s t : Lidar κ} {event : WorkerEvent}
    (hstopped : s.stopRequested = true) (h : s.workerStep config event = some t) :
    t.worker.remaining + 1 ≤ s.worker.remaining ∧
      t.worker.uses + event.usesDevice.toNat ≤ s.worker.uses := by
  cases event <;> simp only [workerStep, Option.ite_none_right_eq_some, Option.some.injEq] at h
  case acquire sdk =>
    obtain ⟨hpc, h⟩ := h
    by_cases hopen : s.device.isOpen = true
    · rw [if_neg (not_not.mpr hopen)] at h
      obtain rfl := Option.some.inj h
      dsimp only
      cases (s.device.grabScan config s.frame.points sdk).2.2 with
      | error message => simp [hpc]
      | ok =>
        dsimp only
        split_ifs <;> simp [hpc]
    · rw [if_pos hopen] at h
      obtain rfl := Option.some.inj h
      simp [goto, hpc]
  case setError =>
    obtain ⟨lastError, he⟩ := s.setError_eq s.worker.error
    rw [he] at h
    split_ifs at h with hpc hpc <;> obtain rfl := Option.some.inj h <;>
      simp [goto, backOff, hpc]
  case reopen sdk =>
    obtain ⟨hpc, rfl⟩ := h
    dsimp only
    cases (s.device.open config sdk).2 <;>
      simp [hpc]
  case countFailure =>
    obtain ⟨hpc, rfl⟩ := h
    dsimp only
    split_ifs <;> simp [hpc]
  case deliver now =>
    obtain ⟨hpc, rfl⟩ := h
    dsimp only [goto]
    split_ifs <;> simp [hpc]
  case callbackEnds throws =>
    obtain ⟨hpc, rfl⟩ := h
    cases throws <;> simp [goto, hpc]
  case testPredicate =>
    obtain ⟨hpc, rfl⟩ := h
    cases hreopen : s.worker.reopenNext <;>
      simp [goto, Worker.afterBackOff, hpc, hreopen, hstopped]
  case testAfterTimeout =>
    obtain ⟨hpc, rfl⟩ := h
    cases hreopen : s.worker.reopenNext <;>
      simp [goto, Worker.afterBackOff, hpc, hreopen]
  case block | wakeSpuriously | timeOut =>
    obtain ⟨hpc, rfl⟩ := h
    cases hreopen : s.worker.reopenNext <;>
      simp [goto, hpc, hreopen]
  all_goals
    obtain ⟨hpc, rfl⟩ := h
    simp [goto, endCycle, hpc, hstopped]

theorem ownerStep_remaining {s t : Lidar κ} {event : OwnerEvent κ} (hspawn : event ≠ .spawn none)
    (h : s.ownerStep config event = some t) :
    t.worker.remaining ≤ s.worker.remaining ∧ t.worker.uses ≤ s.worker.uses ∧
      (t.worker.pc = .exited ↔ s.worker.pc = .exited) := by
  rcases (ownerStep_frame h).2.2.2 with hsame | ⟨hblocked, hwoken⟩ | ⟨hplace, -⟩
  · simp only [hsame, le_refl, true_and]
  · cases hreopen : s.worker.reopenNext <;> simp [hblocked, hwoken, hreopen]
  · -- What is left to the owner here is a spawn that fails.
    cases event <;> simp only [ownerStep, hplace, reduceCtorEq, false_and, if_false, if_true,
      Option.some.injEq] at h
    case spawn failure =>
      cases failure with
      | none => exact absurd rfl hspawn
      | some what =>
        subst h
        exact ⟨le_rfl, le_rfl, Iff.rfl⟩

theorem ownerStep_stopRequested {s t : Lidar κ} {event : OwnerEvent κ}
    (hplace : s.owner.pc ≠ .startClearStop) (hstopped : s.stopRequested = true)
    (h : s.ownerStep config event = some t) : t.stopRequested = true := by
  cases event <;> simp only [ownerStep, Option.ite_none_right_eq_some, Option.some.injEq] at h
  case clearStop => exact absurd h.1 hplace
  case stop => rw [← h.2]
  case setError =>
    obtain ⟨lastError, he⟩ := s.setError_eq s.owner.error
    rw [he] at h
    split_ifs at h <;> obtain rfl := Option.some.inj h <;> exact hstopped
  case close | clearRunning =>
    split_ifs at h <;> obtain rfl := Option.some.inj h <;> exact hstopped
  case assign =>
    obtain ⟨-, rfl⟩ := h
    split_ifs <;> exact hstopped
  case spawn failure =>
    obtain ⟨-, rfl⟩ := h
    cases failure <;> exact hstopped
  all_goals
    obtain ⟨-, rfl⟩ := h
    exact hstopped

/-- A thread that lives has its flag up, or was never asked. -/
structure Stopping (s : Lidar κ) : Prop where
  supervised : Supervised s
  flagged : s.worker.pc ≠ .exited → s.stopRequested = true

theorem step_stopping {s t : Lidar κ} {a : Action κ} (hs : Stopping s)
    (hspawn : a ≠ .owner (.spawn none)) (h : s.step config a = some t) :
    Stopping t ∧ t.worker.remaining + a.isWorker.toNat ≤ s.worker.remaining ∧
      t.worker.uses + a.usesDevice.toNat ≤ s.worker.uses := by
  have hsupervised := step_supervised hs.supervised h
  simp only [step, Option.ite_none_left_eq_some] at h
  cases a with
  | worker event =>
    obtain ⟨hlive, -, -, -, hflag, -⟩ := workerStep_frame h.2
    have hstopped := hs.flagged hlive
    exact ⟨⟨hsupervised, fun _ => hflag.trans hstopped⟩, workerStep_remaining hstopped h.2⟩
  | owner event =>
    have hevent : event ≠ .spawn none := fun heq => hspawn (congrArg _ heq)
    obtain ⟨hremaining, huses, hexited⟩ := ownerStep_remaining hevent h.2
    refine ⟨⟨hsupervised, fun hlive => ?_⟩, by simpa using hremaining, by simpa using huses⟩
    have hlived := mt hexited.mpr hlive
    have hplace : s.owner.pc ≠ .startClearStop := fun hplace => by
      have := (hs.supervised.live hlived).2.2
      simp [hplace] at this
    exact ownerStep_stopRequested hplace (hs.flagged hlived) h.2

/-- The thread never waits for the owner: it has a step of its own wherever it lives. -/
theorem workerStep_enabled (config : LidarConfig) {s : Lidar κ} (hlive : s.worker.pc ≠ .exited) :
    ∃ event t, s.workerStep config event = some t := by
  cases hpc : s.worker.pc with
  | exited => exact absurd hpc hlive
  | loopHead => exact ⟨.loadStop, _, if_pos hpc⟩
  | acquire =>
    refine ⟨.acquire ⟨⟨true, .ok⟩, []⟩, ?_⟩
    simp only [workerStep, hpc, if_true]
    split_ifs <;> exact ⟨_, rfl⟩
  | setGrabError => exact ⟨.setError, _, if_pos hpc⟩
  | countEmpty => exact ⟨.countEmpty, _, if_pos hpc⟩
  | deliver => exact ⟨.deliver ⟨0, by decide⟩, _, if_pos hpc⟩
  | inCallback => exact ⟨.callbackEnds false, _, if_pos hpc⟩
  | countThrow => exact ⟨.countThrow, _, if_pos hpc⟩
  | countDelivered => exact ⟨.countDelivered, _, if_pos hpc⟩
  | countFailure => exact ⟨.countFailure, _, if_pos hpc⟩
  | closeLost => exact ⟨.closeLost, _, if_pos hpc⟩
  | checkStop => exact ⟨.checkStop, _, if_pos hpc⟩
  | testPredicate => exact ⟨.testPredicate, _, if_pos hpc⟩
  | block => exact ⟨.block, _, if_pos hpc⟩
  | blocked => exact ⟨.timeOut, _, if_pos hpc⟩
  | testAfterTimeout => exact ⟨.testAfterTimeout, _, if_pos hpc⟩
  | reopen => exact ⟨.reopen goodBringUp, _, if_pos hpc⟩
  | countConnect => exact ⟨.countConnect, _, if_pos hpc⟩
  | setOpenError => exact ⟨.setError, _, (if_neg (by simp [hpc])).trans (if_pos hpc)⟩
  | closeOnExit => exact ⟨.closeOnExit, _, if_pos hpc⟩
  | exitRunning => exact ⟨.exitRunning, _, if_pos hpc⟩

/-- From any reachable state with a stop requested, until the thread is started anew: whatever the
owner does and the device answers, the thread takes at most nine more steps, of which at most one
uses the device; and until it has ended there is a step it can take. -/
theorem stopped_thread_ends {as bs : List (Action κ)} {s t : Lidar κ}
    (has : exec (step config) new as = some s) (hstopped : s.stopRequested = true)
    (hspawn : ∀ a ∈ bs, a ≠ .owner (.spawn none)) (hbs : exec (step config) s bs = some t) :
    t.worker.remaining + bs.countP Action.isWorker ≤ s.worker.remaining ∧
      s.worker.remaining ≤ 9 ∧ t.worker.uses + bs.countP Action.usesDevice ≤ 1 ∧
      (t.worker.pc ≠ .exited → ∃ event u, t.workerStep config event = some u) := by
  have hsupervised : Supervised s :=
    exec_invariant (fun _ _ _ hs h => step_supervised hs h) new_supervised has
  have hstopping : Stopping s := ⟨hsupervised, fun _ => hstopped⟩
  have hok := @along_of_forall _ _ _ (step config) s _ hspawn
  have hsteps := exec_countP_le (fun s a t hs ha h =>
    ⟨(step_stopping hs ha h).1, (step_stopping hs ha h).2.1⟩) hstopping hok hbs
  have huses := exec_countP_le (fun s a t hs ha h =>
    ⟨(step_stopping hs ha h).1, (step_stopping hs ha h).2.2⟩) hstopping hok hbs
  exact ⟨hsteps, s.worker.remaining_le, huses.trans s.worker.uses_le,
    workerStep_enabled config⟩

/-- The notification is missed and the sensor stays away: the longest way out. -/
def missedActions : List (Action Unit) :=
  [.worker .block, .worker .timeOut, .worker .testAfterTimeout,
    .worker (.reopen { goodBringUp with createLidarDriver := false }), .worker .setError,
    .worker .testPredicate, .worker .loadStop, .worker .closeOnExit, .worker .exitRunning]

theorem stopped_thread_ends_missed : ∃ s t : Lidar Unit,
    exec (step {}) new (backOffActions ++ [.worker .testPredicate, .owner .stop, .owner .notify]) =
      some s ∧ exec (step {}) s missedActions = some t ∧ t.worker.pc = .exited ∧
      missedActions.countP Action.isWorker = 9 ∧ 9 ≤ s.worker.remaining := by
  have hrun : (exec (step {}) new ((backOffActions ++ [.worker .testPredicate, .owner .stop,
      .owner .notify]) ++ missedActions)).map (fun s : Lidar Unit => s.worker.pc) =
      some .exited := by decide +kernel
  have hflag : (exec (step {}) new (backOffActions ++ [.worker .testPredicate, .owner .stop,
      .owner .notify])).map (fun s : Lidar Unit => s.stopRequested) = some true := by
    decide +kernel
  obtain ⟨t, ht, hpc⟩ := Option.map_eq_some_iff.mp hrun
  obtain ⟨s, hs, hbs⟩ := exec_append.mp ht
  rw [hs] at hflag
  have hbound := (stopped_thread_ends hs (Option.some.inj hflag) (by decide) hbs).1
  exact ⟨s, t, hs, hbs, hpc, by decide, le_trans (by decide) ((Nat.le_add_left _ _).trans hbound)⟩

end AebNode.Lidar

namespace AebNode.TcpServer
open LittleEndian Machine Protocol WakePipe

/-- The most steps left to the I/O thread once a stop is requested, by its place outside
`endSession`, not counting what is in the pipe and still to be sent. -/
@[simp] def IoPc.remaining : IoPc → ℕ
  | .exitRunning => 1
  | .exitClear => 2
  | .loopHead => 6
  | .countProgress => 10
  | .send => 12
  | .pump => 13
  | .service => 14
  | .countConnect => 15
  | .clearForSession => 16
  | .install => 17
  | .accept => 21
  | .listenEvents => 22
  | .drainInput => 26
  | .clientEvents => 27
  | .drain => 28
  | .poll => 30
  | .prepare => 31
  | .closeSession | .clearConnected | .countDisconnect | .exited => 0

@[simp] def drainRemaining : Option DrainPc → ℕ
  | some .read => 29
  | some .store => 28
  | none => 27

/-- `endSession` has its own three steps and goes on where it was called. -/
@[simp] def IoThread.remaining (io : IoThread) : ℕ :=
  match io.pc with
  | .closeSession => io.returnTo.remaining + 3
  | .clearConnected => io.returnTo.remaining + 2
  | .countDisconnect => io.returnTo.remaining + 1
  | .drain => drainRemaining (some io.drainPc)
  | pc => pc.remaining

variable {ι : Type*}

def queuedBytes (queue : List Frame) : ℕ := (queue.map fun frame => (encode frame).length).sum

/-- What is left to the thread in all. A byte to be sent may take a `send` of its own and a turn
of the loop around it. -/
def savings (s : TcpServer ι) : ℕ :=
  s.io.remaining + 2 * (s.session.unsent.length + queuedBytes s.queue.queue) + s.wake.bytes

def maxPacket : ℕ := kHeaderSizeV1 + kMaxPointsPerFrame * kPointStrideV1

@[simp] def Action.isIo : Action ι → Bool
  | .io _ => true
  | _ => false

/-- What a step hands to the I/O thread: a retry of a system call, data that the client has sent, a
connection whose socket cannot be used, a byte in the wake pipe, or a frame to be sent. -/
@[simp] def Action.income : Action ι → ℕ
  | .io (.drain .interrupted) | .io (.recv .data) | .io (.recv .interrupted)
  | .io (.accept .interrupted) | .io (.accept .notNonBlocking) => 1
  | .io (.send .interrupted) => 2
  | .publish _ (.signal .written) | .owner (.signal .written) => 1
  | .publish _ .push => 2 * maxPacket
  | _ => 0

theorem IoThread.remaining_le (io : IoThread) (hreturn : io.returnTo.awaitsEndSession = true) :
    io.remaining ≤ 31 := by
  have hback : io.returnTo.remaining ≤ 22 := by
    cases hpc : io.returnTo <;> simp [hpc, IoPc.awaitsEndSession] at hreturn ⊢
  cases hpc : io.pc
  case closeSession | clearConnected | countDisconnect =>
    simp only [IoThread.remaining, hpc]
    omega
  case drain => cases hdrain : io.drainPc <;> simp [hpc, hdrain]
  all_goals simp [hpc]

theorem encode_le_maxPacket (frame : Frame) : (encode frame).length ≤ maxPacket := by
  have hcount : pointCount frame ≤ kMaxPointsPerFrame := by
    unfold pointCount
    split_ifs with h
    · exact le_rfl
    · exact not_lt.mp h
  rw [encode_length, encodedSize, maxPacket]
  exact Nat.add_le_add_left (Nat.mul_le_mul_right _ hcount) _

theorem IoThread.remaining_returned {io : IoThread}
    (hreturn : io.returnTo.awaitsEndSession = true) :
    ({ io with pc := io.returnTo } : IoThread).remaining = io.returnTo.remaining := by
  cases hpc : io.returnTo <;> simp [hpc, IoPc.awaitsEndSession] at hreturn ⊢

theorem drain_savings {w w' : WakePipe} {pc : DrainPc} {event : DrainEvent}
    {next : Option DrainPc} (h : drainStep w pc event = some (w', next)) :
    drainRemaining next + w'.bytes + 1 ≤
      drainRemaining (some pc) + w.bytes + (Action.io (ι := ι) (.drain event)).income := by
  cases pc <;> cases event <;> simp only [drainStep, reduceCtorEq, Option.some.injEq,
    Prod.mk.injEq, Option.ite_none_right_eq_some] at h
  case read.got n =>
    obtain ⟨hn, rfl, rfl⟩ := h
    simp only [drainRemaining, Action.income]
    omega
  case read.wouldBlock =>
    obtain ⟨-, rfl, rfl⟩ := h
    simp
  all_goals
    obtain ⟨rfl, rfl⟩ := h
    simp

theorem queuedBytes_cons (frame : Frame) (rest : List Frame) :
    queuedBytes (frame :: rest) = (encode frame).length + queuedBytes rest := by
  simp [queuedBytes]

theorem savings_le {s t : TcpServer ι} {income : ℕ}
    (hremaining : t.io.remaining + 1 ≤ s.io.remaining + income)
    (hsession : t.session = s.session) (hqueue : t.queue = s.queue)
    (hwake : t.wake = s.wake) : savings t + 1 ≤ savings s + income := by
  simp only [savings, hsession, hqueue, hwake]
  omega

theorem pump_savings {s t : TcpServer ι} (h : s.ioStep .pump = some t) :
    savings t + 1 ≤ savings s + (Action.io (ι := ι) .pump).income := by
  simp only [ioStep, Option.ite_none_right_eq_some] at h
  obtain ⟨hpc, h⟩ := h
  by_cases hsend : s.session.sendOffset < s.session.sendBuffer.length
  · split_ifs at h <;> obtain rfl := Option.some.inj h <;>
      exact savings_le (by simp [hpc]) rfl rfl rfl
  have hdone : s.session.unsent = [] := List.drop_eq_nil_iff.mpr (not_lt.mp hsend)
  cases hqueue : s.queue.queue with
  | nil =>
    rw [FrameQueue.pop_nil hqueue] at h
    simp only [Bool.false_eq_true, if_false] at h
    split_ifs at h <;> obtain rfl := Option.some.inj h <;>
      exact savings_le (by simp [hpc]) rfl rfl rfl
  | cons front rest =>
    rw [FrameQueue.pop_cons hqueue] at h
    simp only [if_true] at h
    split_ifs at h
    · obtain rfl := Option.some.inj h
      exact savings_le (by simp [hpc]) rfl rfl rfl
    · -- The packet moves from the queue to the send buffer.
      obtain rfl := Option.some.inj h
      have hmoved : savings s = 13 + 2 * ((encode front).length + queuedBytes rest) +
          s.wake.bytes := by
        simp [savings, hpc, hdone, hqueue, queuedBytes_cons]
      rw [hmoved]
      simp only [savings, IoThread.remaining, IoPc.remaining, ClientSession.unsent,
        List.drop_zero, Action.income]
      omega

theorem send_savings {s t : TcpServer ι} {result : SendResult}
    (h : s.ioStep (.send result) = some t) :
    savings t + 1 ≤ savings s + (Action.io (ι := ι) (.send result)).income := by
  simp only [ioStep, Option.ite_none_right_eq_some] at h
  obtain ⟨hpc, h⟩ := h
  cases result with
  | written n =>
    simp only [Option.ite_none_right_eq_some, Option.some.injEq] at h
    obtain ⟨hn, rfl⟩ := h
    have hunsent : ({ s.session with sendOffset := s.session.sendOffset + n } :
        ClientSession).unsent.length = s.session.unsent.length - n := by
      simp only [ClientSession.unsent, List.length_drop]
      omega
    simp only [savings, IoThread.remaining, IoPc.remaining, hpc, hunsent, Action.income]
    omega
  | _ =>
    obtain rfl := Option.some.inj h
    exact savings_le (by simp [hpc]) rfl rfl rfl

theorem close_savings {s t : TcpServer ι} (hreturn : s.io.returnTo.awaitsEndSession = true)
    (h : s.ioStep .closeSession = some t) :
    savings t + 1 ≤ savings s + (Action.io (ι := ι) .closeSession).income := by
  simp only [ioStep, Option.ite_none_right_eq_some, Option.some.injEq] at h
  obtain ⟨hpc, rfl⟩ := h
  split_ifs
  · have hgone : s.session.close.unsent = [] := rfl
    simp only [savings, IoThread.remaining, hpc, hgone, List.length_nil, Action.income]
    omega
  · refine savings_le ?_ rfl rfl rfl
    rw [IoThread.remaining_returned hreturn]
    simp [hpc]

/-- With the flag up each step of the thread uses up one of those left to it, unless it retries a
system call. -/
theorem ioStep_savings {s t : TcpServer ι} {event : IoEvent}
    (hreturn : s.io.returnTo.awaitsEndSession = true) (hstopped : s.stopRequested = true)
    (h : s.ioStep event = some t) :
    savings t + 1 ≤ savings s + (Action.io (ι := ι) event).income := by
  cases event
  case pump => exact pump_savings h
  case send result => exact send_savings h
  case closeSession => exact close_savings hreturn h
  all_goals
    simp only [ioStep, Option.ite_none_right_eq_some, Option.some.injEq,
      Option.map_eq_some_iff] at h
  case loadStop =>
    obtain ⟨hpc, rfl⟩ := h
    exact savings_le (by simp [callEndSession, hpc, hstopped]) rfl rfl rfl
  case pollFails interrupted =>
    obtain ⟨hpc, rfl⟩ := h
    cases interrupted <;> exact savings_le (by simp [callEndSession, hpc]) rfl rfl rfl
  case pollReturns wake listen events =>
    obtain ⟨⟨hpc, -⟩, rfl⟩ := h
    cases wake <;> exact savings_le (by simp [hpc]) rfl rfl rfl
  case drain event =>
    obtain ⟨hpc, ⟨wake, next⟩, hdrain, rfl⟩ := h
    have hpaid := @drain_savings ι _ _ _ _ _ hdrain
    simp only [savings, show s.io.remaining = drainRemaining (some s.io.drainPc) by simp [hpc]]
    rcases next with _ | _ | _ <;>
      simp only [IoThread.remaining, IoPc.remaining, hpc, drainRemaining] at hpaid ⊢ <;> omega
  case clientEvents =>
    obtain ⟨hpc, rfl⟩ := h
    refine savings_le ?_ rfl rfl rfl
    dsimp only
    split_ifs <;> simp [callEndSession, hpc]
  case recv result =>
    obtain ⟨hpc, rfl⟩ := h
    cases result <;> exact savings_le (by simp [callEndSession, hpc]) rfl rfl rfl
  case listenEvents =>
    obtain ⟨hpc, rfl⟩ := h
    refine savings_le ?_ rfl rfl rfl
    cases s.io.listenReady <;> simp [hpc]
  case accept result =>
    obtain ⟨hpc, h⟩ := h
    cases result <;> obtain rfl := Option.some.inj h
    case connected =>
      refine savings_le ?_ rfl rfl rfl
      cases s.session.valid <;> simp [callEndSession, hpc]
    all_goals exact savings_le (by simp [hpc]) rfl rfl rfl
  case install =>
    obtain ⟨hpc, rfl⟩ := h
    simp [savings, ClientSession.unsent, hpc]
    omega
  case clearForSession | exitClear =>
    obtain ⟨hpc, rfl⟩ := h
    simp [savings, FrameQueue.clear_queue, queuedBytes, hpc]
    omega
  case service =>
    obtain ⟨hpc, rfl⟩ := h
    split_ifs
    · exact savings_le (by simp [hpc]) rfl rfl rfl
    · simp [savings, FrameQueue.clear_queue, queuedBytes, hpc]
      omega
  case countProgress =>
    obtain ⟨hpc, rfl⟩ := h
    refine savings_le ?_ rfl rfl rfl
    cases hf : s.io.failed <;> simp [callEndSession, hpc, hf]
  case countDisconnect =>
    obtain ⟨hpc, rfl⟩ := h
    refine savings_le ?_ rfl rfl rfl
    rw [IoThread.remaining_returned hreturn]
    simp [hpc]
  all_goals
    obtain ⟨hpc, rfl⟩ := h
    exact savings_le (by simp [hpc]) rfl rfl rfl

theorem signalStep_bytes_le {w w' : WakePipe} {pc : SignalPc} {event : SignalEvent}
    {next : Option SignalPc} (h : signalStep w pc event = some (w', next)) :
    w'.bytes ≤ w.bytes + if event = .written then 1 else 0 := by
  cases pc <;> cases event <;> simp only [signalStep, reduceCtorEq, Option.some.injEq,
    Prod.mk.injEq, Option.ite_none_right_eq_some, Option.ite_none_left_eq_some] at h
  case write.written => simp [← h.2.1]
  case write.failed => simp [h.2.1]
  case write.interrupted | check.proceed => simp [h.1]
  all_goals simp [← h.1]

theorem queuedBytes_push_le (capacity : ℕ) (queue : List Frame) (frame : Frame) :
    queuedBytes (BoundedFifo.push capacity queue frame).1 ≤ queuedBytes queue + maxPacket := by
  have hsublist := (BoundedFifo.push_sublist capacity queue frame).map
    fun frame => (encode frame).length
  have hsum := hsublist.sum_le_sum fun _ _ => Nat.zero_le _
  have hlast := encode_le_maxPacket frame
  simp only [List.map_append, List.sum_append, List.map_singleton, List.sum_singleton] at hsum
  exact hsum.trans (Nat.add_le_add_left hlast _)

theorem queuedBytes_drop_le (n : ℕ) (queue : List Frame) :
    queuedBytes (queue.drop n) ≤ queuedBytes queue :=
  ((List.drop_sublist n queue).map _).sum_le_sum fun _ _ => Nat.zero_le _

/-- The owner adds nothing but the byte that announces the stop, and the start of a new thread. -/
theorem ownerStep_savings {s t : TcpServer ι} {event : OwnerEvent} (hspawn : event ≠ .spawn true)
    (h : s.ownerStep event = some t) :
    t.io = s.io ∧ savings t ≤ savings s + (Action.owner (ι := ι) event).income := by
  obtain ⟨hqueue, hsession, -⟩ := ownerStep_frame h
  have hio : t.io = s.io ∧
      t.wake.bytes ≤ s.wake.bytes + if event = .signal .written then 1 else 0 := by
    cases event <;> simp only [ownerStep] at h
    case signal event =>
      simp only [Option.ite_none_right_eq_some, Option.map_eq_some_iff] at h
      obtain ⟨-, ⟨wake, next⟩, hsignal, rfl⟩ := h
      exact ⟨rfl, by simpa using signalStep_bytes_le hsignal⟩
    case openWake succeeds =>
      simp only [Option.ite_none_right_eq_some, Option.some.injEq] at h
      obtain ⟨-, rfl⟩ := h
      cases succeeds <;> simp [WakePipe.opened]
    case spawn succeeds =>
      simp only [Option.ite_none_right_eq_some, Option.some.injEq] at h
      obtain ⟨-, rfl⟩ := h
      cases succeeds with
      | false => exact ⟨rfl, le_rfl⟩
      | true => exact absurd rfl hspawn
    all_goals
      split_ifs at h <;> obtain rfl := Option.some.inj h <;>
        exact ⟨rfl, by simp [WakePipe.resetEnds]⟩
  refine ⟨hio.1, ?_⟩
  have hwake := hio.2
  simp only [savings, hsession, hio.1, hqueue]
  cases event
  case signal event => cases event <;> simp at hwake ⊢ <;> omega
  all_goals simp at hwake ⊢; omega

/-- What the server can have to send: a queue within its capacity, and one packet. -/
structure Stocked (s : TcpServer ι) : Prop where
  capacity_pos : 0 < s.queue.capacity
  queued : s.queue.queue.length ≤ s.queue.capacity
  buffered : s.session.sendBuffer.length ≤ maxPacket

theorem new_stocked (capacity : ℕ) : Stocked (new capacity : TcpServer ι) := by
  refine ⟨?_, ?_, ?_⟩ <;> simp only [new, FrameQueue.new]
  · split_ifs <;> omega
  · simp
  · simp

theorem Stocked.savings_le {s : TcpServer ι} (hs : Stocked s)
    (hreturn : s.io.returnTo.awaitsEndSession = true) :
    savings s ≤ 31 + 2 * (maxPacket + s.queue.capacity * maxPacket) + s.wake.bytes := by
  have hremaining := s.io.remaining_le hreturn
  have hunsent : s.session.unsent.length ≤ maxPacket := by
    rw [ClientSession.unsent, List.length_drop]
    exact (Nat.sub_le _ _).trans hs.buffered
  have hqueued : queuedBytes s.queue.queue ≤ s.queue.capacity * maxPacket := by
    have hsum := List.sum_le_card_nsmul (s.queue.queue.map fun frame => (encode frame).length)
      maxPacket (by simpa using fun frame _ => encode_le_maxPacket frame)
    rw [List.length_map, smul_eq_mul] at hsum
    exact hsum.trans (Nat.mul_le_mul_right _ hs.queued)
  simp only [savings]
  omega

theorem ioStep_stock {s t : TcpServer ι} {event : IoEvent} (h : s.ioStep event = some t) :
    t.queue.queue.length ≤ s.queue.queue.length ∧
      (t.session.sendBuffer.length ≤ s.session.sendBuffer.length ∨
        ∃ frame, t.session.sendBuffer = encode frame) := by
  cases he : event.streams with
  | false =>
    obtain ⟨hqueue, hsession, -⟩ := ioStep_frame h he
    exact ⟨by rw [hqueue], Or.inl (by rw [hsession])⟩
  | true =>
    cases event <;> first | contradiction | simp only [ioStep, Option.ite_none_right_eq_some,
      Option.some.injEq] at h
    case accept result =>
      obtain ⟨-, h⟩ := h
      cases result <;> obtain rfl := Option.some.inj h <;> exact ⟨le_rfl, Or.inl le_rfl⟩
    case send result =>
      obtain ⟨-, h⟩ := h
      cases result <;> simp only [Option.ite_none_right_eq_some, Option.some.injEq] at h
      case written => exact h.2 ▸ ⟨le_rfl, Or.inl le_rfl⟩
      all_goals exact h ▸ ⟨le_rfl, Or.inl le_rfl⟩
    case pump =>
      obtain ⟨-, h⟩ := h
      cases hqueue : s.queue.queue with
      | nil =>
        rw [FrameQueue.pop_nil hqueue] at h
        simp only [Bool.false_eq_true, if_false] at h
        split_ifs at h <;> obtain rfl := Option.some.inj h <;> simp [hqueue]
      | cons front rest =>
        rw [FrameQueue.pop_cons hqueue] at h
        simp only [if_true] at h
        split_ifs at h <;> obtain rfl := Option.some.inj h
        · simp [hqueue]
        · simp [hqueue]
        · exact ⟨by simp, Or.inr ⟨front, rfl⟩⟩
    case service =>
      obtain ⟨-, rfl⟩ := h
      split_ifs
      · exact ⟨le_rfl, Or.inl le_rfl⟩
      · simp [FrameQueue.clear_queue]
    case closeSession =>
      obtain ⟨-, rfl⟩ := h
      split_ifs
      · exact ⟨le_rfl, Or.inl (by simp [ClientSession.close])⟩
      · exact ⟨le_rfl, Or.inl le_rfl⟩
    all_goals
      obtain ⟨-, rfl⟩ := h
      simp [FrameQueue.clear_queue]

variable [DecidableEq ι]

/-- A publisher adds a frame, or the byte that announces it. -/
theorem publishStep_savings {s t : TcpServer ι} {p : ι} {event : PublishEvent}
    (hcapacity : 0 < s.queue.capacity) (h : s.publishStep p event = some t) :
    savings t ≤ savings s + (Action.publish p event).income := by
  obtain ⟨hsession, -, hio, -⟩ := publishStep_frame h
  have hqueue := publishStep_queue h
  have hwake : t.wake.bytes ≤ s.wake.bytes + if event = .signal .written then 1 else 0 := by
    cases event <;> simp only [publishStep, Option.ite_none_right_eq_some, Option.some.injEq,
      Option.map_eq_some_iff] at h
    case signal event =>
      obtain ⟨-, ⟨wake, next⟩, hsignal, rfl⟩ := h
      simpa using signalStep_bytes_le hsignal
    all_goals
      obtain ⟨-, rfl⟩ := h
      simp [setCall]
  have hbytes : queuedBytes t.queue.queue ≤
      queuedBytes s.queue.queue + if event = .push then maxPacket else 0 := by
    rw [hqueue]
    cases event <;> simp only [reduceCtorEq, if_false, if_true, Nat.add_zero, le_refl]
    case push =>
      rw [FrameQueue.push_queue _ hcapacity]
      exact queuedBytes_push_le _ _ _
    case pushThrows =>
      rw [FrameQueue.pushThrows_queue _ hcapacity]
      exact queuedBytes_drop_le _ _
  simp only [savings, hsession, hio]
  cases event <;> simp only [reduceCtorEq, if_false, if_true, Action.income] at hwake hbytes ⊢
  case signal event => cases event <;> simp at hwake ⊢ <;> omega
  all_goals omega

theorem step_stocked {s t : TcpServer ι} {a : Action ι} (hs : Stocked s)
    (h : s.step a = some t) : Stocked t := by
  have hcapacity := step_capacity h
  simp only [step, Option.ite_none_left_eq_some] at h
  refine ⟨hcapacity.symm ▸ hs.capacity_pos, ?_, ?_⟩
  · rw [hcapacity]
    cases a with
    | publish p event =>
      rw [publishStep_queue h.2]
      cases event
      case push =>
        rw [FrameQueue.push_queue _ hs.capacity_pos]
        exact BoundedFifo.push_length_le hs.capacity_pos _ _
      case pushThrows =>
        rw [FrameQueue.pushThrows_queue _ hs.capacity_pos, List.length_drop]
        exact (Nat.sub_le _ _).trans hs.queued
      all_goals exact hs.queued
    | owner event => exact (ownerStep_frame h.2).1.symm ▸ hs.queued
    | io event => exact (ioStep_stock h.2).1.trans hs.queued
  · cases a with
    | publish p event => exact (publishStep_frame h.2).1.symm ▸ hs.buffered
    | owner event => exact (ownerStep_frame h.2).2.1.symm ▸ hs.buffered
    | io event =>
      rcases (ioStep_stock h.2).2 with hle | ⟨frame, heq⟩
      · exact hle.trans hs.buffered
      · exact heq ▸ encode_le_maxPacket frame

/-- What the bound rests on: a thread that lives has its flag up and returns from `endSession` to
where it was called. -/
structure Stopping (s : TcpServer ι) : Prop where
  lifecycle : Lifecycle s
  capacity_pos : 0 < s.queue.capacity
  returnTo : s.io.returnTo.awaitsEndSession = true
  flagged : s.io.pc ≠ .exited → s.stopRequested = true

theorem step_stopping {s t : TcpServer ι} {a : Action ι} (hs : Stopping s)
    (hspawn : a ≠ .owner (.spawn true)) (h : s.step a = some t) :
    Stopping t ∧ savings t + a.isIo.toNat ≤ savings s + a.income := by
  have hlifecycle := step_lifecycle hs.lifecycle h
  have hcapacity : 0 < t.queue.capacity := (step_capacity h).symm ▸ hs.capacity_pos
  simp only [step, Option.ite_none_left_eq_some] at h
  cases a with
  | publish p event =>
    obtain ⟨-, -, hio, -, hflag, -⟩ := publishStep_frame h.2
    refine ⟨⟨hlifecycle, hcapacity, hio ▸ hs.returnTo, fun hlive => ?_⟩,
      publishStep_savings hs.capacity_pos h.2⟩
    exact hflag.trans (hs.flagged (hio ▸ hlive))
  | owner event =>
    obtain ⟨hio, hsavings⟩ := ownerStep_savings (fun heq => hspawn (congrArg _ heq)) h.2
    refine ⟨⟨hlifecycle, hcapacity, hio ▸ hs.returnTo, fun hlive => ?_⟩, hsavings⟩
    have hlived : s.io.pc ≠ .exited := hio ▸ hlive
    have hplace : s.owner.pc ≠ .startClearStop := fun hplace => by
      have := (hs.lifecycle.live hlived).2.2
      simp [hplace] at this
    by_contra hdown
    rcases (ownerStep_stopRequested h.2).2 (by simpa using hdown) with hdown | hstarts
    · exact absurd (hs.flagged hlived) (by simp [hdown])
    · exact hplace hstarts
  | io event =>
    have hstopped := hs.flagged (ioStep_running h.2).1
    exact ⟨⟨hlifecycle, hcapacity, ioStep_returnTo h.2 hs.returnTo,
      fun _ => (ioStep_threads h.2).2.2.1.trans hstopped⟩,
      ioStep_savings hs.returnTo hstopped h.2⟩

theorem step_returnTo {s t : TcpServer ι} {a : Action ι}
    (hs : s.io.returnTo.awaitsEndSession = true) (h : s.step a = some t) :
    t.io.returnTo.awaitsEndSession = true := by
  simp only [step, Option.ite_none_left_eq_some] at h
  cases a with
  | publish p event => rw [(publishStep_frame h.2).2.2.1, hs]
  | owner event =>
    obtain ⟨-, -, -, -, hio | ⟨hio, -, -⟩⟩ := ownerStep_frame h.2
    · rw [hio, hs]
    · rw [hio]
      rfl
  | io event => exact ioStep_returnTo h.2 hs

/-- The stop finds a frame in the queue, which still goes out, in two parts. -/
def farewellActions : List (Action Unit) :=
  ([.owner (.signal .proceed), .owner (.signal .proceed)] : List (Action Unit)) ++ wakeActions ++
    [.io .pump, .io (.send (.written 10)), .io .pump, .io (.send .interrupted), .io .pump,
      .io (.send (.written 32)), .io .pump, .io .countProgress, .io .loadStop, .io .closeSession,
      .io .clearConnected, .io .countDisconnect, .io .exitClear, .io .exitRunning]

end AebNode.TcpServer
