import AebNode.ServerCallers

/-! The life of the server over all runs: while its I/O thread lives the running flag is up and
the owner waits, and once the thread is gone and joined, what a next life would inherit is what
unfinished calls of `publish` still do to the wake pipe. -/
namespace AebNode.TcpServer
open Machine WakePipe

variable {ι : Type*}

/-- The places of the owner at which the I/O thread may be alive. -/
@[simp] def OwnerPc.leavesThread : OwnerPc → Bool
  | .idle | .stopSignal | .stopJoin => true
  | _ => false

@[simp] def OwnerPc.beforeDisconnect : OwnerPc → Bool
  | .stopResetEnds | .stopClearPending | .stopClearConnected => true
  | _ => false

/-- The places at which the pipe can be open although no thread reads it. -/
@[simp] def OwnerPc.holdsPipe : OwnerPc → Bool
  | .stopResetEnds | .startListen | .startSetRunning | .startSpawn | .spawnClearRunning
  | .startResetEnds => true
  | _ => false

/-- The owner is out of `start`, and past the store that clears the pending flag. -/
@[simp] def OwnerPc.settled : OwnerPc → Bool
  | .idle | .stopSignal | .stopJoin | .stopClearConnected | .stopClearRunning => true
  | _ => false

/-- A pending flag with no byte behind it belongs to a caller about to write or to take it back. -/
def Owned (s : TcpServer ι) : Prop :=
  s.wake.pending = true → ∃ c, notifying s c = some .write ∨ notifying s c = some .restore

structure Lifecycle (s : TcpServer ι) : Prop where
  live : s.io.pc ≠ .exited →
    s.joinable = true ∧ s.running = true ∧ s.owner.pc.leavesThread = true
  spawning : s.owner.pc = .startSpawn → s.running = true
  disconnected : s.joinable = false → s.owner.pc.beforeDisconnect = false →
    s.clientConnected = false
  closed : s.joinable = false → s.owner.pc.holdsPipe = false → s.wake.valid = false
  owned : s.joinable = false → s.owner.pc.settled = true → Owned s

theorem new_lifecycle (capacity : ℕ) : Lifecycle (new capacity : TcpServer ι) where
  live h := absurd rfl h
  spawning h := by simp [new] at h
  disconnected _ _ := rfl
  closed _ _ := rfl
  owned _ _ h := by simp [new] at h

/-! A thread that the owner, the flag or the handle rules out has ended. -/

theorem Lifecycle.exited_of_place {s : TcpServer ι} (hs : Lifecycle s)
    (hplace : s.owner.pc.leavesThread = false) : s.io.pc = .exited := by
  by_contra hlive
  rw [(hs.live hlive).2.2] at hplace
  cases hplace

theorem Lifecycle.exited_of_down {s : TcpServer ι} (hs : Lifecycle s) (hdown : s.running = false) :
    s.io.pc = .exited := by
  by_contra hlive
  rw [(hs.live hlive).2.1] at hdown
  cases hdown

theorem Lifecycle.exited_of_unjoinable {s : TcpServer ι} (hs : Lifecycle s)
    (hunjoinable : s.joinable = false) : s.io.pc = .exited := by
  by_contra hlive
  rw [(hs.live hlive).1] at hunjoinable
  cases hunjoinable

/-- The stretches of the I/O thread's loop. -/
inductive IoPhase
  | polling
  | accepting
  | output
  | ending
  deriving DecidableEq, Repr

def IoEvent.phase : IoEvent → IoPhase
  | .accept _ | .install | .clearForSession | .countConnect => .accepting
  | .service | .pump | .send _ | .countProgress => .output
  | .closeSession | .clearConnected | .countDisconnect | .exitClear | .exitRunning => .ending
  | _ => .polling

/-- The steps of `stop`, some of which a failing `start` shares. -/
def OwnerEvent.stopping : OwnerEvent → Bool
  | .stop | .signal _ | .join | .resetEnds | .clearPending | .clearConnected | .clearRunning => true
  | _ => false

/-- The places `endSession` returns to. -/
def IoPc.awaitsEndSession : IoPc → Bool
  | .listenEvents | .install | .loopHead | .exitClear => true
  | _ => false

theorem ioStep_returnTo {s t : TcpServer ι} {event : IoEvent} (h : s.ioStep event = some t)
    (hreturn : s.io.returnTo.awaitsEndSession = true) :
    t.io.returnTo.awaitsEndSession = true := by
  cases event <;> simp only [ioStep, Option.ite_none_right_eq_some, Option.some.injEq,
    Option.map_eq_some_iff] at h
  case loadStop =>
    obtain ⟨-, rfl⟩ := h
    cases s.stopRequested
    · exact hreturn
    · rfl
  case pollFails interrupted =>
    obtain ⟨-, rfl⟩ := h
    cases interrupted
    · rfl
    · exact hreturn
  case drain event =>
    obtain ⟨-, ⟨_, next⟩, -, rfl⟩ := h
    cases next <;> exact hreturn
  case clientEvents =>
    obtain ⟨-, rfl⟩ := h
    dsimp only
    split_ifs
    · rfl
    all_goals exact hreturn
  case recv result =>
    obtain ⟨-, rfl⟩ := h
    cases result
    case closed => rfl
    case failed => rfl
    all_goals exact hreturn
  case accept result =>
    obtain ⟨-, h⟩ := h
    cases result <;> obtain rfl := Option.some.inj h
    case connected =>
      dsimp only
      split_ifs
      · rfl
      · exact hreturn
    all_goals exact hreturn
  case service =>
    obtain ⟨-, rfl⟩ := h
    split_ifs <;> exact hreturn
  case pump =>
    obtain ⟨-, h⟩ := h
    split_ifs at h <;> obtain rfl := Option.some.inj h <;> exact hreturn
  case send result =>
    obtain ⟨-, h⟩ := h
    cases result <;> simp only [Option.ite_none_right_eq_some, Option.some.injEq] at h
    case written => exact h.2 ▸ hreturn
    all_goals exact h ▸ hreturn
  case countProgress =>
    obtain ⟨-, rfl⟩ := h
    cases s.io.failed
    · exact hreturn
    · rfl
  case closeSession =>
    obtain ⟨-, rfl⟩ := h
    split_ifs <;> exact hreturn
  all_goals
    obtain ⟨-, rfl⟩ := h
    exact hreturn

/-- The I/O thread takes the running flag down only as it ends. -/
theorem ioStep_running {s t : TcpServer ι} {event : IoEvent} (h : s.ioStep event = some t) :
    s.io.pc ≠ .exited ∧ (t.running = s.running ∨ t.io.pc = .exited) := by
  refine ⟨fun hexited => by cases event <;> simp [ioStep, hexited] at h, ?_⟩
  cases event <;> simp only [ioStep, Option.ite_none_right_eq_some, Option.some.injEq,
    Option.map_eq_some_iff] at h
  case drain =>
    obtain ⟨_, _, _, rfl⟩ := h
    exact Or.inl rfl
  case accept result =>
    obtain ⟨_, h⟩ := h
    cases result <;> obtain rfl := Option.some.inj h <;> exact Or.inl rfl
  case send result =>
    obtain ⟨_, h⟩ := h
    cases result <;> simp only [Option.ite_none_right_eq_some, Option.some.injEq] at h
    case written =>
      obtain ⟨_, rfl⟩ := h
      exact Or.inl rfl
    all_goals
      subst h
      exact Or.inl rfl
  case pump =>
    obtain ⟨_, h⟩ := h
    split_ifs at h <;> obtain rfl := Option.some.inj h <;> exact Or.inl rfl
  case service =>
    obtain ⟨_, rfl⟩ := h
    split_ifs <;> exact Or.inl rfl
  case closeSession =>
    obtain ⟨_, rfl⟩ := h
    split_ifs <;> exact Or.inl rfl
  case exitRunning =>
    obtain ⟨_, rfl⟩ := h
    exact Or.inr rfl
  all_goals
    obtain ⟨_, rfl⟩ := h
    exact Or.inl rfl

theorem ioStep_exits {s t : TcpServer ι} {event : IoEvent} (h : s.ioStep event = some t)
    (hreturn : s.io.returnTo.awaitsEndSession = true) (hexited : t.io.pc = .exited) :
    event = .exitRunning := by
  have hback : s.io.returnTo ≠ .exited := by
    intro hr
    simp [hr, IoPc.awaitsEndSession] at hreturn
  cases event <;> simp only [ioStep, Option.ite_none_right_eq_some, Option.some.injEq,
    Option.map_eq_some_iff] at h
  case exitRunning => rfl
  case loadStop =>
    obtain ⟨-, rfl⟩ := h
    cases hs : s.stopRequested <;> simp [hs, callEndSession] at hexited
  case pollFails interrupted =>
    obtain ⟨-, rfl⟩ := h
    cases interrupted <;> simp [callEndSession] at hexited
  case pollReturns wake listen events =>
    obtain ⟨-, rfl⟩ := h
    cases wake <;> simp at hexited
  case drain event =>
    obtain ⟨hpc, ⟨_, next⟩, -, rfl⟩ := h
    cases next <;> simp [hpc] at hexited
  case clientEvents =>
    obtain ⟨hpc, rfl⟩ := h
    dsimp only at hexited
    split_ifs at hexited
    simp [callEndSession] at hexited
  case recv result =>
    obtain ⟨hpc, rfl⟩ := h
    cases result <;> simp [callEndSession, hpc] at hexited
  case listenEvents =>
    obtain ⟨-, rfl⟩ := h
    cases hl : s.io.listenReady <;> simp [hl] at hexited
  case accept result =>
    obtain ⟨hpc, h⟩ := h
    cases result <;> obtain rfl := Option.some.inj h
    case connected =>
      dsimp only at hexited
      split_ifs at hexited
      simp [callEndSession] at hexited
    all_goals simp [hpc] at hexited
  case service =>
    obtain ⟨-, rfl⟩ := h
    split_ifs at hexited
  case pump =>
    obtain ⟨-, h⟩ := h
    split_ifs at h <;> obtain rfl := Option.some.inj h <;> simp at hexited
  case send result =>
    obtain ⟨-, h⟩ := h
    cases result <;> simp only [Option.ite_none_right_eq_some, Option.some.injEq] at h
    case written =>
      obtain ⟨-, rfl⟩ := h
      simp at hexited
    all_goals
      subst h
      simp at hexited
  case countProgress =>
    obtain ⟨-, rfl⟩ := h
    cases hf : s.io.failed <;> simp [hf, callEndSession] at hexited
  case closeSession =>
    obtain ⟨-, rfl⟩ := h
    split_ifs at hexited
    exact absurd hexited hback
  case countDisconnect =>
    obtain ⟨-, rfl⟩ := h
    exact absurd hexited hback
  all_goals
    obtain ⟨-, rfl⟩ := h
    simp at hexited

/-- The I/O thread lives in a joinable handle: its steps concern none of the rest. -/
theorem ioStep_lifecycle {s t : TcpServer ι} {event : IoEvent} (hs : Lifecycle s)
    (h : s.ioStep event = some t) : Lifecycle t := by
  obtain ⟨hlive, hrunning⟩ := ioStep_running h
  obtain ⟨-, howner, -, hjoinable⟩ := ioStep_threads h
  obtain ⟨hheld, hup, hplace⟩ := hs.live hlive
  have hno : t.joinable ≠ false := by simp [hjoinable, hheld]
  refine ⟨fun hl => ?_, fun hspawn => ?_, fun hj => absurd hj hno, fun hj => absurd hj hno,
    fun hj => absurd hj hno⟩
  · rcases hrunning with hsame | hexited
    · rw [hjoinable, hsame, howner]
      exact ⟨hheld, hup, hplace⟩
    · exact absurd hexited hl
  · rw [howner] at hspawn
    simp [hspawn] at hplace

variable [DecidableEq ι]

theorem publishStep_flags {s t : TcpServer ι} {p : ι} {event : PublishEvent}
    (h : s.publishStep p event = some t) :
    t.running = s.running ∧ t.clientConnected = s.clientConnected := by
  cases event <;> simp only [publishStep, Option.ite_none_right_eq_some, Option.some.injEq,
    Option.map_eq_some_iff] at h
  case signal =>
    obtain ⟨_, _, _, rfl⟩ := h
    exact ⟨rfl, rfl⟩
  all_goals
    obtain ⟨_, rfl⟩ := h
    exact ⟨rfl, rfl⟩

/-- On a closed pipe every pending flag keeps an owner. -/
theorem CallerStep.owned {s t : TcpServer ι} {c : Option ι} (h : CallerStep s t c)
    (hclosed : s.wake.valid = false) (hs : Owned s) : Owned t := by
  intro hpending
  have hother : ∀ d next, notifying s d = some .write ∨ notifying s d = some .restore → d ≠ c →
      notifying t = Function.update (notifying s) c next →
      ∃ e, notifying t e = some .write ∨ notifying t e = some .restore := by
    intro d next hd hne hphase
    exact ⟨d, by rwa [hphase, Function.update_of_ne hne]⟩
  have hself : ∀ next, next = some .write ∨ next = some .restore →
      notifying t = Function.update (notifying s) c next →
      ∃ e, notifying t e = some .write ∨ notifying t e = some .restore := by
    intro next hnext hphase
    exact ⟨c, by rwa [hphase, Function.update_self]⟩
  cases h with
  | quiet hwake hphase =>
    rw [hphase]
    exact hs (hwake ▸ hpending)
  | enters hwake hidle hphase =>
    obtain ⟨d, hd⟩ := hs (hwake ▸ hpending)
    refine hother d _ hd ?_ hphase
    rintro rfl
    simp [hidle] at hd
  | @signals pc event next hc hstep hphase =>
    cases pc <;> cases event <;> simp only [signalStep, reduceCtorEq, Option.some.injEq,
      Prod.mk.injEq, Option.ite_none_right_eq_some, Option.ite_none_left_eq_some] at hstep
    case check.proceed =>
      obtain ⟨hwake, -⟩ := hstep
      obtain ⟨d, hd⟩ := hs (hwake ▸ hpending)
      refine hother d _ hd ?_ hphase
      rintro rfl
      simp [hc] at hd
    case exchange.proceed =>
      obtain ⟨-, hnext⟩ := hstep
      cases hp : s.wake.pending with
      | true =>
        obtain ⟨d, hd⟩ := hs hp
        refine hother d _ hd ?_ hphase
        rintro rfl
        simp [hc] at hd
      | false => exact hself next (Or.inl (by simp [← hnext, hp])) hphase
    case write.written => simp [hclosed] at hstep
    case write.interrupted => exact hself next (Or.inl hstep.2.symm) hphase
    case write.failed => exact hself next (Or.inr hstep.2.2.symm) hphase
    case restore.proceed =>
      obtain ⟨hwake, -⟩ := hstep
      simp [← hwake] at hpending

theorem OwnerPc.settled_closed {pc : OwnerPc} (h : pc.settled = true) : pc.holdsPipe = false := by
  cases pc <;> first | rfl | contradiction

theorem OwnerPc.leavesThread_stops {pc : OwnerPc} (h : pc.leavesThread = true) :
    pc.stops = true ∧ pc.settled = true ∧ pc.joined = false := by
  cases pc <;> first | contradiction | exact ⟨rfl, rfl, rfl⟩

theorem publishStep_lifecycle {s t : TcpServer ι} {p : ι} {event : PublishEvent}
    (hs : Lifecycle s) (h : s.publishStep p event = some t) : Lifecycle t := by
  obtain ⟨-, -, hio, howner, -, hjoinable⟩ := publishStep_frame h
  obtain ⟨hrunning, hconnected⟩ := publishStep_flags h
  have hcaller := publishStep_caller h
  constructor
  case live =>
    rw [hio, hjoinable, hrunning, howner]
    exact hs.live
  case spawning =>
    rw [howner, hrunning]
    exact hs.spawning
  case disconnected =>
    rw [hjoinable, howner, hconnected]
    exact hs.disconnected
  case closed =>
    rw [hjoinable, howner, hcaller.valid]
    exact hs.closed
  case owned =>
    rw [hjoinable, howner]
    intro hj hsettled
    exact hcaller.owned (hs.closed hj (OwnerPc.settled_closed hsettled)) (hs.owned hj hsettled)

omit [DecidableEq ι] in
theorem Owned.congr {s t : TcpServer ι} (hs : Owned s) (hwake : t.wake = s.wake)
    (hcalls : t.calls = s.calls) (howner : s.owner.pc ≠ .stopSignal) : Owned t := by
  intro hpending
  obtain ⟨c, hc⟩ := hs (hwake ▸ hpending)
  cases c with
  | none => simp [notifying, howner] at hc
  | some p =>
    refine ⟨some p, ?_⟩
    simpa only [notifying, hcalls] using hc

omit [DecidableEq ι] in
/-- Once the thread is gone, an owner's step concerns the flags and the pipe alone. -/
theorem Lifecycle.of_exited {t : TcpServer ι} (hexited : t.io.pc = .exited)
    (hspawning : t.owner.pc = .startSpawn → t.running = true)
    (hdisconnected : t.joinable = false → t.owner.pc.beforeDisconnect = false →
      t.clientConnected = false)
    (hclosed : t.joinable = false → t.owner.pc.holdsPipe = false → t.wake.valid = false)
    (howned : t.joinable = false → t.owner.pc.settled = true → Owned t) : Lifecycle t where
  live h := absurd hexited h
  spawning := hspawning
  disconnected := hdisconnected
  closed := hclosed
  owned := howned

theorem stopping_lifecycle {s t : TcpServer ι} {event : OwnerEvent} (hs : Lifecycle s)
    (hphase : event.stopping = true) (h : s.ownerStep event = some t) : Lifecycle t := by
  -- In `stop` up to the join, the owner is one of the callers of `signal`.
  have hcaller : s.owner.pc.leavesThread = true → event ≠ .start → s.joinable = false →
      Owned t := by
    intro hplace hstart hj
    obtain ⟨hstops, hsettled, hjoined⟩ := OwnerPc.leavesThread_stops hplace
    rcases (ownerStep_caller hstops hstart h).2.2.2 with hstep | hafter
    · exact hstep.owned (hs.closed hj (OwnerPc.settled_closed hsettled)) (hs.owned hj hsettled)
    · exact absurd hafter (hjoined ▸ Bool.false_ne_true)
  cases event <;> simp only [OwnerEvent.stopping, Bool.false_eq_true] at hphase <;>
    simp only [ownerStep, Option.ite_none_right_eq_some, Option.some.injEq,
      Option.map_eq_some_iff] at h
  case stop =>
    obtain ⟨hpc, rfl⟩ := h
    refine ⟨fun hlive => ?_, by simp, fun hj _ => ?_, fun hj _ => ?_, fun hj _ => ?_⟩
    · obtain ⟨hheld, hup, -⟩ := hs.live hlive
      exact ⟨hheld, hup, rfl⟩
    · exact hs.disconnected hj (by simp [hpc])
    · exact hs.closed hj (by simp [hpc])
    · exact hcaller (by simp [hpc]) (by simp) hj
  case signal event =>
    obtain ⟨hpc, ⟨w, next⟩, hsignal, ht⟩ := h
    have hplace : t.owner.pc.leavesThread = true := by
      rw [← ht]
      cases next <;> simp [hpc]
    subst ht
    refine ⟨fun hlive => ?_, fun hspawn => ?_, fun hj _ => ?_, fun hj _ => ?_, fun hj _ => ?_⟩
    · obtain ⟨hheld, hup, -⟩ := hs.live hlive
      exact ⟨hheld, hup, hplace⟩
    · rw [hspawn] at hplace
      cases hplace
    · exact hs.disconnected hj (by simp [hpc])
    · exact (signalStep_valid hsignal).trans (hs.closed hj (by simp [hpc]))
    · exact hcaller (by simp [hpc]) (by simp) hj
  case join =>
    obtain ⟨⟨hpc, hended⟩, rfl⟩ := h
    have hexited : s.io.pc = .exited := by
      by_contra hlive
      exact hlive (hended (hs.live hlive).1)
    exact .of_exited hexited (by simp) (by simp) (by simp) (by simp)
  case resetEnds =>
    split_ifs at h with hpc hpc <;> obtain rfl := Option.some.inj h
    · refine .of_exited (hs.exited_of_place (by simp [hpc])) (by simp) (by simp)
        (fun _ _ => rfl) (by simp)
    · refine .of_exited (hs.exited_of_place (by simp [hpc])) (by simp) (fun hj _ => ?_)
        (fun _ _ => rfl) (by simp)
      exact hs.disconnected hj (by simp [hpc])
  case clearPending =>
    split_ifs at h with hpc hpc <;> obtain rfl := Option.some.inj h
    · refine .of_exited (hs.exited_of_place (by simp [hpc])) (by simp) (by simp)
        (fun hj _ => ?_) (fun _ _ hpending => by simp at hpending)
      exact hs.closed hj (by simp [hpc])
    · refine .of_exited (hs.exited_of_place (by simp [hpc])) (by simp) (fun hj _ => ?_)
        (fun hj _ => ?_) (fun _ _ hpending => by simp at hpending)
      · exact hs.disconnected hj (by simp [hpc])
      · exact hs.closed hj (by simp [hpc])
  case clearConnected =>
    obtain ⟨hpc, rfl⟩ := h
    refine .of_exited (hs.exited_of_place (by simp [hpc])) (by simp) (fun _ _ => rfl)
      (fun hj _ => ?_) (fun hj _ => ?_)
    · exact hs.closed hj (by simp [hpc])
    · exact (hs.owned hj (by simp [hpc])).congr rfl rfl (by simp [hpc])
  case clearRunning =>
    split_ifs at h with hpc hpc <;> obtain rfl := Option.some.inj h
    · refine .of_exited (hs.exited_of_place (by simp [hpc])) (by simp) (fun hj _ => ?_)
        (fun hj _ => ?_) (fun hj _ => ?_)
      · exact hs.disconnected hj (by simp [hpc])
      · exact hs.closed hj (by simp [hpc])
      · exact (hs.owned hj (by simp [hpc])).congr rfl rfl (by simp [hpc])
    · refine .of_exited (hs.exited_of_place (by simp [hpc])) (by simp) (fun hj _ => ?_)
        (by simp) (by simp)
      exact hs.disconnected hj (by simp [hpc])

omit [DecidableEq ι] in
theorem starting_lifecycle {s t : TcpServer ι} {event : OwnerEvent} (hs : Lifecycle s)
    (hphase : event.stopping = false) (h : s.ownerStep event = some t) : Lifecycle t := by
  cases event <;> simp only [OwnerEvent.stopping, Bool.true_eq_false] at hphase <;>
    simp only [ownerStep, Option.ite_none_right_eq_some, Option.some.injEq] at h
  case start =>
    obtain ⟨hpc, rfl⟩ := h
    have hdisconnected : s.joinable = false → s.clientConnected = false := fun hj =>
      hs.disconnected hj (by simp [hpc])
    have hclosed : s.joinable = false → s.wake.valid = false := fun hj =>
      hs.closed hj (by simp [hpc])
    cases hrunning : s.running with
    | true =>
      refine ⟨fun hlive => ⟨(hs.live hlive).1, rfl, rfl⟩, by simp, fun hj _ => hdisconnected hj,
        fun hj _ => hclosed hj, fun hj _ => ?_⟩
      exact (hs.owned hj (by simp [hpc])).congr rfl rfl (by simp [hpc])
    | false =>
      exact .of_exited (hs.exited_of_down hrunning) (by simp) (fun hj _ => hdisconnected hj)
        (fun hj _ => hclosed hj) (by simp)
  case clearStop =>
    obtain ⟨hpc, rfl⟩ := h
    refine .of_exited (hs.exited_of_place (by simp [hpc])) (by simp) (fun hj _ => ?_)
      (fun hj _ => ?_) (by simp)
    · exact hs.disconnected hj (by simp [hpc])
    · exact hs.closed hj (by simp [hpc])
  case openWake succeeds =>
    obtain ⟨hpc, rfl⟩ := h
    have hdisconnected : s.joinable = false → s.clientConnected = false := fun hj =>
      hs.disconnected hj (by simp [hpc])
    cases succeeds <;>
      exact .of_exited (hs.exited_of_place (by simp [hpc])) (by simp) (fun hj _ => hdisconnected hj)
        (by simp) (by simp)
  case listen succeeds =>
    obtain ⟨hpc, rfl⟩ := h
    have hdisconnected : s.joinable = false → s.clientConnected = false := fun hj =>
      hs.disconnected hj (by simp [hpc])
    cases succeeds <;>
      exact .of_exited (hs.exited_of_place (by simp [hpc])) (by simp) (fun hj _ => hdisconnected hj)
        (by simp) (by simp)
  case setRunning =>
    obtain ⟨hpc, rfl⟩ := h
    exact .of_exited (hs.exited_of_place (by simp [hpc])) (fun _ => rfl)
      (fun hj _ => hs.disconnected hj (by simp [hpc])) (by simp) (by simp)
  case spawn succeeds =>
    obtain ⟨hpc, rfl⟩ := h
    have hexited := hs.exited_of_place (by simp [hpc])
    have hdisconnected : s.joinable = false → s.clientConnected = false := fun hj =>
      hs.disconnected hj (by simp [hpc])
    cases succeeds with
    | false =>
      exact .of_exited hexited (by simp) (fun hj _ => hdisconnected hj) (by simp) (by simp)
    | true =>
      by_cases hjoinable : s.joinable = true
      · simp only [hjoinable, not_true, if_false, if_true]
        exact .of_exited hexited (by simp) (by simp) (by simp) (by simp)
      · simp only [hjoinable, not_true, if_false]
        exact ⟨fun _ => ⟨rfl, hs.spawning hpc, rfl⟩, by simp, by simp, by simp, by simp⟩

theorem ownerStep_lifecycle {s t : TcpServer ι} {event : OwnerEvent} (hs : Lifecycle s)
    (h : s.ownerStep event = some t) : Lifecycle t := by
  cases hphase : event.stopping with
  | true => exact stopping_lifecycle hs hphase h
  | false => exact starting_lifecycle hs hphase h

theorem step_lifecycle {s t : TcpServer ι} {a : Action ι} (hs : Lifecycle s)
    (h : s.step a = some t) : Lifecycle t := by
  simp only [step, Option.ite_none_left_eq_some] at h
  cases a with
  | publish p event => exact publishStep_lifecycle hs h.2
  | owner event => exact ownerStep_lifecycle hs h.2
  | io event => exact ioStep_lifecycle hs h.2

end AebNode.TcpServer
