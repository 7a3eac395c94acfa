import AebNode.ServerLifecycle

/-! Why the I/O thread never sleeps through a wakeup while the server runs. A frame or a stop
request that arrives after the loop has looked for it leaves a byte in the pipe or a caller
that is still inside `signal`. -/
namespace AebNode.TcpServer
open Machine WakePipe

variable {ι : Type*}

def draining (s : TcpServer ι) : Option DrainPc :=
  if s.io.pc = .drain then some s.io.drainPc else none

/-- The invariant of a server between one start and the end of its I/O thread. -/
structure WakeInvariant (s : TcpServer ι) : Prop where
  stops : s.owner.pc.stops = true
  joined : s.owner.pc.joined = true → s.io.pc = .exited
  unjoined : s.joinable = false → s.io.pc = .exited
  returnTo : s.io.pc ≠ .exited → s.io.returnTo.awaitsEndSession = true
  valid : s.io.pc ≠ .exited → s.wake.valid = true
  coalesced : s.io.pc ≠ .exited → Coalesced s.wake (notifying s) (draining s)
  registered : s.io.pc = .poll → (s.session.valid = true → s.io.registered ≠ none)
  stop_alert : s.io.pc = .prepare ∨ s.io.pc = .poll → s.stopRequested = true →
    Alert s.wake (notifying s)
  queue_alert : s.io.pc = .poll → s.io.registered = some false → s.queue.empty = false →
    Alert s.wake (notifying s)

section Loop

/-- The I/O thread moves the pipe only by draining it, reaches poll only by preparing for it,
and leaves the callers alone. -/
theorem ioStep_loop {s t : TcpServer ι} {event : IoEvent} (h : s.ioStep event = some t)
    (hreturn : s.io.returnTo.awaitsEndSession = true)
    (hpoll : event ≠ .prepare) (hdrain : ∀ e, event ≠ .drain e)
    (hready : ∀ listen events, event ≠ .pollReturns true listen events) :
    t.wake = s.wake ∧ s.io.pc ≠ .drain ∧ t.io.pc ≠ .drain ∧ t.io.pc ≠ .poll ∧
      (t.io.pc = .prepare → s.stopRequested = false) := by
  have hback : s.io.returnTo ≠ .drain ∧ s.io.returnTo ≠ .poll ∧ s.io.returnTo ≠ .prepare := by
    refine ⟨?_, ?_, ?_⟩ <;> intro hr <;> simp [hr, IoPc.awaitsEndSession] at hreturn
  cases event <;> simp only [ioStep, Option.ite_none_right_eq_some, Option.some.injEq] at h
  case prepare => exact absurd rfl hpoll
  case drain event => exact absurd rfl (hdrain event)
  case loadStop =>
    obtain ⟨hpc, rfl⟩ := h
    cases hs : s.stopRequested <;>
      simp [hpc, callEndSession]
  case pollFails interrupted =>
    obtain ⟨hpc, rfl⟩ := h
    cases interrupted <;> simp [hpc, callEndSession]
  case pollReturns wake listen events =>
    obtain ⟨⟨hpc, -⟩, rfl⟩ := h
    cases wake with
    | true => exact absurd rfl (hready listen events)
    | false => simp [hpc]
  case clientEvents =>
    obtain ⟨hpc, rfl⟩ := h
    dsimp only
    split_ifs <;> simp [hpc, callEndSession]
  case recv result =>
    obtain ⟨hpc, rfl⟩ := h
    cases result <;> simp [hpc, callEndSession]
  case listenEvents =>
    obtain ⟨hpc, rfl⟩ := h
    cases hl : s.io.listenReady <;> simp [hpc]
  case accept result =>
    obtain ⟨hpc, h⟩ := h
    cases result <;> obtain rfl := Option.some.inj h
    case connected =>
      dsimp only
      split_ifs <;> simp [hpc, callEndSession]
    all_goals simp [hpc]
  case service =>
    obtain ⟨hpc, rfl⟩ := h
    split_ifs <;> simp [hpc]
  case pump =>
    obtain ⟨hpc, h⟩ := h
    split_ifs at h <;> obtain rfl := Option.some.inj h <;> simp [hpc]
  case send result =>
    obtain ⟨hpc, h⟩ := h
    cases result <;> simp only [Option.ite_none_right_eq_some, Option.some.injEq] at h
    case written =>
      obtain ⟨-, rfl⟩ := h
      simp [hpc]
    all_goals
      subst h
      simp [hpc]
  case countProgress =>
    obtain ⟨hpc, rfl⟩ := h
    cases hf : s.io.failed <;> simp [hpc, hf, callEndSession]
  case closeSession =>
    obtain ⟨hpc, rfl⟩ := h
    split_ifs <;> simp [hpc, hback]
  all_goals
    obtain ⟨hpc, rfl⟩ := h
    simp [hpc, hback]

theorem ioStep_notifying {s t : TcpServer ι} {event : IoEvent} (h : s.ioStep event = some t) :
    notifying t = notifying s := by
  obtain ⟨hcalls, howner, -⟩ := ioStep_threads h
  funext c
  cases c <;> simp only [notifying, hcalls, howner]

theorem ioStep_wake {s t : TcpServer ι} {event : IoEvent} (inv : WakeInvariant s)
    (h : s.ioStep event = some t) : WakeInvariant t := by
  have hphase := ioStep_notifying h
  obtain ⟨hcalls, howner, hstop, hjoinable⟩ := ioStep_threads h
  have hexited : s.io.pc ≠ .exited := by
    intro hpc
    cases event <;> simp [ioStep, hpc] at h
  have hvalid := inv.valid hexited
  have hcoalesced := inv.coalesced hexited
  have hstops : t.owner.pc.stops = true := howner ▸ inv.stops
  have hjoined : t.owner.pc.joined = true → t.io.pc = .exited := fun hj =>
    absurd (inv.joined (howner ▸ hj)) hexited
  have hunjoined : t.joinable = false → t.io.pc = .exited := fun hj =>
    absurd (inv.unjoined (hjoinable ▸ hj)) hexited
  by_cases hprepare : event = .prepare
  · subst hprepare
    simp only [ioStep, Option.ite_none_right_eq_some, Option.some.injEq] at h
    obtain ⟨hpc, rfl⟩ := h
    have hdraining : draining s = none := by simp [draining, hpc]
    rw [hdraining] at hcoalesced
    exact {
      stops := hstops
      joined := hjoined
      unjoined := hunjoined
      returnTo := fun _ => inv.returnTo hexited
      valid := fun _ => hvalid
      coalesced := fun _ => hcoalesced
      registered := fun _ hv => by
        dsimp only at hv ⊢
        rw [if_pos hv]
        simp
      stop_alert := fun _ => inv.stop_alert (Or.inl hpc)
      queue_alert := fun _ hr hq => by
        dsimp only at hr hq
        split_ifs at hr
        simp [ClientSession.pollsOut, hq] at hr }
  by_cases hready : ∃ listen events, event = .pollReturns true listen events
  · obtain ⟨listen, events, rfl⟩ := hready
    simp only [ioStep, Option.ite_none_right_eq_some, Option.some.injEq] at h
    obtain ⟨⟨hpc, hbytes, -⟩, rfl⟩ := h
    have hdraining : draining s = none := by simp [draining, hpc]
    rw [hdraining] at hcoalesced
    exact {
      stops := hstops
      joined := hjoined
      unjoined := hunjoined
      returnTo := fun _ => inv.returnTo hexited
      valid := fun _ => hvalid
      coalesced := fun _ => hcoalesced.startDrain (by simpa using hbytes)
      registered := by simp
      stop_alert := by simp
      queue_alert := by simp }
  by_cases hdrain : ∃ e, event = .drain e
  · obtain ⟨e, rfl⟩ := hdrain
    simp only [ioStep, Option.ite_none_right_eq_some, Option.map_eq_some_iff] at h
    obtain ⟨hpc, ⟨w, next⟩, hstep, rfl⟩ := h
    have hdraining : draining s = some s.io.drainPc := by simp [draining, hpc]
    have hnext := hcoalesced.drained hdraining hstep
    have hw : w.valid = true := (drainStep_valid hstep).trans hvalid
    cases next with
    | none => exact ⟨hstops, hjoined, hunjoined, fun _ => inv.returnTo hexited, fun _ => hw,
        fun _ => hnext, by simp, by simp, by simp⟩
    | some pc => exact ⟨hstops, hjoined, hunjoined, fun _ => inv.returnTo hexited, fun _ => hw,
        fun _ => by
          rw [hphase]
          simpa [draining, hpc] using hnext,
        by simp [hpc], by simp [hpc], by simp [hpc]⟩
  have hreturn := ioStep_returnTo h (inv.returnTo hexited)
  obtain ⟨hwake, hnodrain, hdrained, hpoll, hloop⟩ :=
    ioStep_loop h (inv.returnTo hexited) hprepare (fun e he => hdrain ⟨e, he⟩)
      (fun l e he => hready ⟨l, e, he⟩)
  have hs : draining s = none := if_neg hnodrain
  have ht : draining t = none := if_neg hdrained
  exact {
    stops := hstops
    joined := hjoined
    unjoined := hunjoined
    returnTo := fun _ => hreturn
    valid := fun _ => hwake ▸ hvalid
    coalesced := fun _ => by
      rw [hwake, hphase, ht, ← hs]
      exact hcoalesced
    registered := fun hp => absurd hp hpoll
    stop_alert := fun hp hr => by
      rcases hp with hp | hp
      · rw [hstop, hloop hp] at hr
        contradiction
      · exact absurd hp hpoll
    queue_alert := fun hp => absurd hp hpoll }

theorem WakeInvariant.of_exited {s : TcpServer ι} (hexited : s.io.pc = .exited)
    (hstops : s.owner.pc.stops = true) : WakeInvariant s where
  stops := hstops
  joined _ := hexited
  unjoined _ := hexited
  returnTo h := absurd hexited h
  valid h := absurd hexited h
  coalesced h := absurd hexited h
  registered h := by simp [hexited] at h
  stop_alert h := by simp [hexited] at h
  queue_alert h := by simp [hexited] at h

variable [DecidableEq ι]

/-- A caller's step keeps the invariant: what it adds to look for, it also announces. -/
theorem WakeInvariant.caller {s t : TcpServer ι} {c : Option ι} (inv : WakeInvariant s)
    (hstep : CallerStep s t c) (hio : t.io = s.io) (hsession : t.session = s.session)
    (hstops : t.owner.pc.stops = true) (hjoined : t.owner.pc.joined = true → t.io.pc = .exited)
    (hunjoined : t.joinable = false → t.io.pc = .exited)
    (hstop : t.stopRequested = s.stopRequested ∨ Alert t.wake (notifying t))
    (hqueue : (t.queue.empty = false → s.queue.empty = false) ∨ Alert t.wake (notifying t)) :
    WakeInvariant t := by
  have hpc : t.io.pc = s.io.pc := congrArg IoThread.pc hio
  have hdraining : draining t = draining s := by rw [draining, draining, hio]
  have hkeep : s.io.pc = .prepare ∨ s.io.pc = .poll → Alert s.wake (notifying s) →
      Alert t.wake (notifying t) := by
    intro hp halert
    have hexited : s.io.pc ≠ .exited := by
      rcases hp with hp | hp <;> simp [hp]
    have hnone : draining s = none := by
      rcases hp with hp | hp <;> simp [draining, hp]
    exact hstep.alert (inv.valid hexited) (hnone ▸ inv.coalesced hexited) halert
  exact {
    stops := hstops
    joined := hjoined
    unjoined := hunjoined
    returnTo := fun he => hio ▸ inv.returnTo (hpc ▸ he)
    valid := fun he => hstep.valid.trans (inv.valid (hpc ▸ he))
    coalesced := fun he => by
      rw [hdraining]
      exact hstep.coalesced (inv.valid (hpc ▸ he)) (inv.coalesced (hpc ▸ he))
    registered := fun hp => by
      rw [hsession, hio]
      exact inv.registered (hpc ▸ hp)
    stop_alert := fun hp hr => by
      rw [hpc] at hp
      rcases hstop with hsame | halert
      · exact hkeep hp (inv.stop_alert hp (hsame ▸ hr))
      · exact halert
    queue_alert := fun hp hr hq => by
      rw [hpc] at hp
      rw [hio] at hr
      rcases hqueue with hsame | halert
      · exact hkeep (Or.inr hp) (inv.queue_alert hp hr (hsame hq))
      · exact halert }

theorem publishStep_wake {s t : TcpServer ι} {p : ι} {event : PublishEvent}
    (inv : WakeInvariant s) (hcapacity : 0 < s.queue.capacity)
    (h : s.publishStep p event = some t) : WakeInvariant t := by
  have hcaller := publishStep_caller h
  obtain ⟨hsession, -, hio, howner, hstop, hjoinable⟩ := publishStep_frame h
  have hqueue := publishStep_queue h
  refine inv.caller hcaller hio hsession (howner ▸ inv.stops) ?_ ?_ (Or.inl hstop) ?_
  · rw [howner, hio]
    exact inv.joined
  · rw [hjoinable, hio]
    exact inv.unjoined
  · cases event with
    | push =>
      simp only [publishStep, Option.ite_none_right_eq_some, Option.some.injEq] at h
      obtain ⟨-, rfl⟩ := h
      refine Or.inr (Or.inr ⟨some p, ?_⟩)
      simp only [notifying, setCall, Function.update_self]
      split_ifs <;> simp_all
    | pushThrows =>
      refine Or.inl fun hq => ?_
      simp only at hqueue
      rw [hqueue] at hq
      simp only [FrameQueue.empty, FrameQueue.pushThrows_queue _ hcapacity] at hq ⊢
      by_contra hempty
      simp only [Bool.not_eq_false, List.isEmpty_iff] at hempty
      simp [hempty] at hq
    | _ =>
      simp only at hqueue
      exact Or.inl fun hq => hqueue ▸ hq

theorem ownerStep_wake {s t : TcpServer ι} {event : OwnerEvent} (inv : WakeInvariant s)
    (hstart : event ≠ .start) (h : s.ownerStep event = some t) : WakeInvariant t := by
  obtain ⟨hstops, hio, hjoined, hcaller⟩ := ownerStep_caller inv.stops hstart h
  obtain ⟨hqueue, hsession, -⟩ := ownerStep_frame h
  have hended : t.owner.pc.joined = true → t.io.pc = .exited := by
    intro hj
    rw [hio]
    rcases hjoined hj with hs | rfl
    · exact inv.joined hs
    · simp only [ownerStep, Option.ite_none_right_eq_some] at h
      by_cases hold : s.joinable = true
      · exact h.1.2 hold
      · exact inv.unjoined (by simpa using hold)
  have hunjoined : t.joinable = false → t.io.pc = .exited := by
    intro hj
    rw [hio]
    exact (ownerStep_joinable h hj).elim inv.unjoined id
  rcases hcaller with hcaller | hdown
  · refine inv.caller hcaller hio hsession hstops hended hunjoined ?_ (Or.inl fun hq => hqueue ▸ hq)
    cases event <;> simp only [ownerStep] at h
    case stop =>
      simp only [Option.ite_none_right_eq_some, Option.some.injEq] at h
      obtain ⟨-, rfl⟩ := h
      exact Or.inr (Or.inr ⟨none, by simp [notifying]⟩)
    case signal =>
      simp only [Option.ite_none_right_eq_some, Option.map_eq_some_iff] at h
      obtain ⟨_, _, _, rfl⟩ := h
      exact Or.inl rfl
    case clearStop =>
      simp only [Option.ite_none_right_eq_some] at h
      have := inv.stops
      rw [h.1] at this
      contradiction
    all_goals
      split_ifs at h <;> obtain rfl := Option.some.inj h <;> exact Or.inl rfl
  · -- After the join there is no I/O thread left to wake.
    have hexited : t.io.pc = .exited := hio ▸ inv.joined hdown
    exact .of_exited hexited hstops

@[simp] def PublishPc.sawClient : PublishPc → Bool
  | .idle | .loadConnected | .discard => false
  | _ => true

@[simp] def OwnerPc.starts : OwnerPc → Bool
  | .startClearStop | .startOpenWake | .startListen | .startSetRunning | .startSpawn
  | .spawnClearRunning | .startResetEnds | .startClearPending | .terminated => true
  | _ => false

@[simp] def OwnerPc.opened : OwnerPc → Bool
  | .startListen | .startSetRunning | .startSpawn => true
  | _ => false

/-- From the call of `start` to the new thread nothing is pending: no publisher sees a client. -/
structure Starting (s : TcpServer ι) : Prop where
  exited : s.io.pc = .exited
  place : s.owner.pc.starts = true
  calm : s.joinable = false → ∀ p, (s.calls p).pc.sawClient = false
  disconnected : s.joinable = false → s.clientConnected = false
  quiet : s.joinable = false → s.wake.pending = false
  opened : s.joinable = false → s.owner.pc.opened = true →
    s.wake.valid = true ∧ s.wake.bytes = 0

/-- With the client flag down no call gets to see a client, or to touch the pipe. -/
theorem publishStep_calm {s t : TcpServer ι} {p : ι} {event : PublishEvent}
    (hdown : s.clientConnected = false) (hcalm : ∀ p, (s.calls p).pc.sawClient = false)
    (h : s.publishStep p event = some t) :
    (∀ p, (t.calls p).pc.sawClient = false) ∧ t.wake = s.wake := by
  have hown := hcalm p
  have hkeep : ∀ call : PublishCall, call.pc.sawClient = false →
      ∀ q, (Function.update s.calls p call q).pc.sawClient = false := by
    intro call hcall q
    by_cases hq : q = p
    · subst hq
      simpa using hcall
    · simpa [hq] using hcalm q
  cases event <;> simp only [publishStep, Option.ite_none_right_eq_some, Option.some.injEq,
    Option.map_eq_some_iff] at h
  case call frame =>
    obtain ⟨-, rfl⟩ := h
    exact ⟨hkeep _ rfl, rfl⟩
  case loadConnected =>
    obtain ⟨-, rfl⟩ := h
    exact ⟨hkeep _ (by simp [hdown]), rfl⟩
  case discard =>
    obtain ⟨-, rfl⟩ := h
    exact ⟨hkeep _ rfl, rfl⟩
  all_goals simp [h.1] at hown

theorem publishStep_starting {s t : TcpServer ι} {p : ι} {event : PublishEvent}
    (hs : Starting s) (h : s.publishStep p event = some t) : Starting t := by
  obtain ⟨-, -, hio, howner, -, hjoinable⟩ := publishStep_frame h
  have hconnected := (publishStep_flags h).2
  constructor
  case exited => exact hio ▸ hs.exited
  case place => exact howner ▸ hs.place
  all_goals
    rw [hjoinable]
    intro hj
    obtain ⟨hcalm, hwake⟩ := publishStep_calm (hs.disconnected hj) (hs.calm hj) h
  case calm => exact hcalm
  case disconnected => exact hconnected.trans (hs.disconnected hj)
  case quiet => exact hwake ▸ hs.quiet hj
  case opened =>
    rw [hwake, howner]
    exact hs.opened hj

omit [DecidableEq ι] in
/-- The end of `start`: a thread with a fresh pipe and nobody inside `signal`, or none. -/
theorem ownerStep_starting {s t : TcpServer ι} {event : OwnerEvent} (hs : Starting s)
    (h : s.ownerStep event = some t) : Starting t ∨ WakeInvariant t := by
  obtain ⟨hexited, hplace, hcalm, hdown, hquiet, hopened⟩ := hs
  cases event <;> simp only [ownerStep, Option.ite_none_right_eq_some, Option.some.injEq,
    Option.map_eq_some_iff] at h
  case clearStop =>
    obtain ⟨-, rfl⟩ := h
    exact Or.inl ⟨hexited, rfl, hcalm, hdown, hquiet, by simp⟩
  case openWake succeeds =>
    obtain ⟨-, rfl⟩ := h
    cases succeeds with
    | true => exact Or.inl ⟨hexited, rfl, hcalm, hdown, hquiet, fun _ _ => ⟨rfl, rfl⟩⟩
    | false => exact Or.inl ⟨hexited, rfl, hcalm, hdown, hquiet, by simp⟩
  case listen succeeds =>
    obtain ⟨hpc, rfl⟩ := h
    cases succeeds with
    | true =>
      exact Or.inl ⟨hexited, rfl, hcalm, hdown, hquiet, fun hj _ =>
        hopened hj (by simp [hpc])⟩
    | false => exact Or.inl ⟨hexited, rfl, hcalm, hdown, hquiet, by simp⟩
  case setRunning =>
    obtain ⟨hpc, rfl⟩ := h
    exact Or.inl ⟨hexited, rfl, hcalm, hdown, hquiet, fun hj _ => hopened hj (by simp [hpc])⟩
  case spawn succeeds =>
    obtain ⟨hpc, rfl⟩ := h
    cases succeeds with
    | false => exact Or.inl ⟨hexited, rfl, hcalm, hdown, hquiet, by simp⟩
    | true =>
      by_cases hj : s.joinable = true
      · simp only [hj, not_true, if_false, if_true]
        exact Or.inl ⟨hexited, rfl, by simp, by simp, by simp, by simp⟩
      · simp only [hj, not_true, if_false]
        have hj' : s.joinable = false := by simpa using hj
        obtain ⟨hvalid, hbytes⟩ := hopened hj' (by simp [hpc])
        have hnone : ∀ c, notifying ({ s with
            joinable := true
            io := { pc := .loopHead }
            owner := { pc := .idle } } : TcpServer ι) c = none := by
          rintro (_ | p)
          · rfl
          · have hp := hcalm hj' p
            simp only [notifying]
            split_ifs with hin
            · rcases hin with hin | hin <;> simp [hin] at hp
            · rfl
        refine Or.inr ⟨rfl, by simp, by simp, fun _ => rfl, fun _ => hvalid,
          fun _ => ?_, by simp, by simp, by simp⟩
        apply coalesced_of_no_writer <;> simp [hnone, hbytes, hquiet hj', draining]
  case clearRunning =>
    split_ifs at h with hpc <;> obtain rfl := Option.some.inj h
    · simp [hpc] at hplace
    · exact Or.inl ⟨hexited, rfl, hcalm, hdown, hquiet, by simp⟩
  case resetEnds =>
    split_ifs at h with hpc <;> obtain rfl := Option.some.inj h
    · simp [hpc] at hplace
    · exact Or.inl ⟨hexited, rfl, hcalm, hdown, hquiet, by simp⟩
  case clearPending =>
    split_ifs at h with hpc <;> obtain rfl := Option.some.inj h
    · simp [hpc] at hplace
    · exact Or.inr (.of_exited hexited rfl)
  case join => simp [h.1.1] at hplace
  all_goals simp [h.1] at hplace

theorem step_life (s : TcpServer ι) (a : Action ι) (t : TcpServer ι)
    (inv : (Starting s ∨ WakeInvariant s) ∧ 0 < s.queue.capacity) (hstart : a ≠ .owner .start)
    (h : s.step a = some t) : (Starting t ∨ WakeInvariant t) ∧ 0 < t.queue.capacity := by
  refine ⟨?_, (step_capacity h).symm ▸ inv.2⟩
  simp only [step, Option.ite_none_left_eq_some] at h
  obtain ⟨-, h⟩ := h
  rcases inv.1 with hs | hs
  · cases a with
    | publish p event => exact Or.inl (publishStep_starting hs h)
    | owner event => exact ownerStep_starting hs h
    | io event => exact absurd hs.exited (ioStep_running h).1
  · cases a with
    | publish p event => exact Or.inr (publishStep_wake hs inv.2 h)
    | owner event => exact Or.inr (ownerStep_wake hs (fun he => hstart (he ▸ rfl)) h)
    | io event => exact Or.inr (ioStep_wake hs h)

theorem start_starting {s t : TcpServer ι} (hs : Lifecycle s) (hstopped : s.running = false)
    (hcalm : ∀ p, (s.calls p).pc.sawClient = false) (h : s.step (.owner .start) = some t) :
    Starting t := by
  simp only [step, ownerStep, Option.ite_none_left_eq_some, Option.ite_none_right_eq_some,
    Option.some.injEq, hstopped] at h
  obtain ⟨-, hpc, rfl⟩ := h
  refine ⟨hs.exited_of_down hstopped, rfl, fun _ => hcalm, fun hj => ?_, fun hj => ?_, by simp⟩
  · exact hs.disconnected hj (by simp [hpc])
  · by_contra hpending
    -- The owner is idle, so the pending flag would be a publisher's inside `signal`.
    rcases hs.owned hj (by simp [hpc]) (by simpa using hpending) with ⟨_ | p, hc⟩
    · simp [notifying, hpc] at hc
    · have hp := hcalm p
      simp only [notifying] at hc
      split_ifs at hc with hin
      · rcases hin with hin | hin <;> simp [hin] at hp
      · simp at hc

structure Unstarted (s : TcpServer ι) : Prop where
  exited : s.io.pc = .exited
  stops : s.owner.pc.stops = true
  stopped : s.running = false
  disconnected : s.clientConnected = false
  calm : ∀ p, (s.calls p).pc.sawClient = false

theorem step_unstarted (s : TcpServer ι) (a : Action ι) (t : TcpServer ι) (hs : Unstarted s)
    (hstart : a ≠ .owner .start) (h : s.step a = some t) : Unstarted t := by
  simp only [step, Option.ite_none_left_eq_some] at h
  obtain ⟨-, h⟩ := h
  cases a with
  | publish p event =>
    obtain ⟨-, -, hio, howner, -, -⟩ := publishStep_frame h
    obtain ⟨hrunning, hconnected⟩ := publishStep_flags h
    exact ⟨hio ▸ hs.exited, howner ▸ hs.stops, hrunning.trans hs.stopped,
      hconnected.trans hs.disconnected, (publishStep_calm hs.disconnected hs.calm h).1⟩
  | io event => exact absurd hs.exited (ioStep_running h).1
  | owner event =>
    have hevent : event ≠ .start := fun he => hstart (he ▸ rfl)
    obtain ⟨hstops, hio, -, -⟩ := ownerStep_caller hs.stops hevent h
    obtain ⟨-, -, -, hcalls, -⟩ := ownerStep_frame h
    have hflags : t.running = false ∧ t.clientConnected = false := by
      have hplace := hs.stops
      cases event <;> simp only [ownerStep] at h
      case signal =>
        simp only [Option.ite_none_right_eq_some, Option.map_eq_some_iff] at h
        obtain ⟨_, _, _, rfl⟩ := h
        exact ⟨hs.stopped, hs.disconnected⟩
      case setRunning =>
        simp only [Option.ite_none_right_eq_some] at h
        simp [h.1] at hplace
      case spawn =>
        simp only [Option.ite_none_right_eq_some] at h
        simp [h.1] at hplace
      case openWake =>
        simp only [Option.ite_none_right_eq_some] at h
        simp [h.1] at hplace
      all_goals
        split_ifs at h <;> obtain rfl := Option.some.inj h <;>
          first | exact ⟨hs.stopped, hs.disconnected⟩ | exact ⟨rfl, hs.disconnected⟩ |
            exact ⟨hs.stopped, rfl⟩
    exact ⟨hio ▸ hs.exited, hstops, hflags.1, hflags.2, hcalls ▸ hs.calm⟩

/-- Before the first start no call of `publish` has seen a client. -/
theorem unstarted_calm {capacity : ℕ} {before : List (Action ι)} {r : TcpServer ι}
    (h : exec step (new capacity) before = some r) (hnone : ∀ a ∈ before, a ≠ .owner .start) :
    r.running = false ∧ ∀ p, (r.calls p).pc.sawClient = false := by
  have hnew : Unstarted (new capacity : TcpServer ι) := ⟨rfl, rfl, rfl, rfl, fun _ => rfl⟩
  have hr := exec_invariant_along step_unstarted hnew (along_of_forall hnone) h
  exact ⟨hr.stopped, hr.calm⟩

theorem life_wake {capacity : ℕ} {before as : List (Action ι)} {r s : TcpServer ι}
    (hbefore : exec step (new capacity) before = some r) (hstopped : r.running = false)
    (hcalm : ∀ p, (r.calls p).pc.sawClient = false) (honce : ∀ a ∈ as, a ≠ .owner .start)
    (h : exec step r (.owner .start :: as) = some s) (hlive : s.io.pc ≠ .exited) :
    WakeInvariant s := by
  obtain ⟨u, hstart, has⟩ := exec_cons.mp h
  have hlife : Lifecycle r :=
    exec_invariant (fun _ _ _ hs ht => step_lifecycle hs ht) (new_lifecycle capacity) hbefore
  have hcapacity : 0 < u.queue.capacity := by
    have hnew : 0 < (new capacity : TcpServer ι).queue.capacity := by
      simp only [new, FrameQueue.new]
      split_ifs <;> omega
    have hkeep : ∀ (s : TcpServer ι) a t, 0 < s.queue.capacity → step s a = some t →
        0 < t.queue.capacity := fun _ _ _ hs ht => (step_capacity ht).symm ▸ hs
    exact hkeep _ _ _ (exec_invariant hkeep hnew hbefore) hstart
  have hstarting := start_starting hlife hstopped hcalm hstart
  have hrun := exec_invariant_along step_life (And.intro (Or.inl hstarting) hcapacity)
    (along_of_forall honce) has
  exact hrun.1.resolve_left fun hs => hlive hs.exited

omit [DecidableEq ι] in
theorem WakeInvariant.blocked {s : TcpServer ι} (inv : WakeInvariant s)
    (hlive : s.io.pc ≠ .exited) :
    s.wake.bytes ≤ 1 ∧
      (s.io.pc = .poll → s.wake.bytes = 0 → (∀ c, notifying s c = none) →
        s.stopRequested = false ∧
          (s.session.valid = true → s.queue.empty = true ∨ s.io.registered = some true)) := by
  refine ⟨(inv.coalesced hlive).bytes_le, fun hpoll hbytes hquiet => ?_⟩
  have hnone : ¬ Alert s.wake (notifying s) := by
    rintro (hb | ⟨c, hc⟩)
    · omega
    · exact hc (hquiet c)
  refine ⟨?_, fun hv => ?_⟩
  · by_contra hstop
    exact hnone (inv.stop_alert (Or.inr hpoll) (by simpa using hstop))
  · by_contra hboth
    obtain ⟨hqueue, hout⟩ := not_or.mp hboth
    have hregistered : s.io.registered = some false := by
      cases hr : s.io.registered with
      | none => exact absurd hr (inv.registered hpoll hv)
      | some out =>
        cases out with
        | false => rfl
        | true => exact absurd hr hout
    exact hnone (inv.queue_alert hpoll hregistered (by simpa using hqueue))

/-- One life of the server, begun by any `start` that finds it stopped and no call of `publish`
left over that has seen a client, whatever the publishers, the loop and `stop` do and in whatever
order: while the thread lives the pipe holds at most one byte; and whenever the thread is blocked
in poll with the pipe empty and no caller between its push or flag store and the end of its
signal, no stop was requested, and a valid session has nothing queued or has registered for
`POLLOUT`. -/
theorem no_lost_wakeup (capacity : ℕ) {before as : List (Action ι)} {r s : TcpServer ι}
    (hbefore : exec step (new capacity) before = some r) (hstopped : r.running = false)
    (hcalm : ∀ p, (r.calls p).pc.sawClient = false) (honce : ∀ a ∈ as, a ≠ .owner .start)
    (h : exec step r (.owner .start :: as) = some s) (hlive : s.io.pc ≠ .exited) :
    s.wake.bytes ≤ 1 ∧
      (s.io.pc = .poll → s.wake.bytes = 0 → (∀ c, notifying s c = none) →
        s.stopRequested = false ∧
          (s.session.valid = true → s.queue.empty = true ∨ s.io.registered = some true)) :=
  (life_wake hbefore hstopped hcalm honce h hlive).blocked hlive

/-- The first life, which is the only one in the application, whatever calls of `publish` began
before it. -/
theorem first_life_wakeup {capacity : ℕ} {before as : List (Action ι)} {s : TcpServer ι}
    (hnone : ∀ a ∈ before, a ≠ .owner .start) (honce : ∀ a ∈ as, a ≠ .owner .start)
    (h : exec step (new capacity) (before ++ .owner .start :: as) = some s)
    (hlive : s.io.pc ≠ .exited) :
    s.wake.bytes ≤ 1 ∧
      (s.io.pc = .poll → s.wake.bytes = 0 → (∀ c, notifying s c = none) →
        s.stopRequested = false ∧
          (s.session.valid = true → s.queue.empty = true ∨ s.io.registered = some true)) := by
  obtain ⟨r, hbefore, has⟩ := exec_append.mp h
  obtain ⟨hstopped, hcalm⟩ := unstarted_calm hbefore hnone
  exact (life_wake hbefore hstopped hcalm honce has hlive).blocked hlive

/-- The loop takes a frame off the queue, cannot send all of it, and goes back to poll. -/
def partialSendActions : List (Action ι) :=
  [.io .pump, .io (.send (.written 20)), .io .pump, .io (.send .wouldBlock), .io .countProgress,
    .io .loadStop, .io .prepare]

/-- A call of `publish` that began before the server was started finds no client. Then a first
client is served; a frame is pushed, the loop wakes up and sends a part of it; a second one is
pushed, and the loop drains the pipe again and blocks in poll with that frame queued. -/
theorem no_lost_wakeup_blocked :
    let before : List (Action Unit) := [.publish () (.call {})]
    let as : List (Action Unit) := startActions.tail ++
      [.publish () .loadConnected, .publish () .discard] ++ acceptActions ++
      publishActions () {} ++ wakeActions ++ partialSendActions ++
      publishActions () {} ++ wakeActions ++
      [.io .pump, .io (.send .wouldBlock), .io .countProgress, .io .loadStop, .io .prepare]
    ∃ r s, exec step (new 4) before = some r ∧ exec step r (.owner .start :: as) = some s ∧
      s.io.pc = .poll ∧ s.session.valid = true ∧ s.wake.bytes ≤ 1 ∧ s.stopRequested = false ∧
      s.queue.empty = false ∧ (s.queue.empty = true ∨ s.io.registered = some true) := by
  intro before as
  have hstate : (exec step (new 4) (before ++ .owner .start :: as)).map
      (fun s => ((s.io.pc, s.session.valid, s.wake.bytes, s.queue.empty), notifying s none,
        notifying s (some ()))) = some ((.poll, true, 0, false), none, none) := by decide +kernel
  obtain ⟨s, hs, hlast⟩ := Option.map_eq_some_iff.mp hstate
  obtain ⟨r, hbefore, has⟩ := exec_append.mp hs
  simp only [Prod.mk.injEq] at hlast
  obtain ⟨⟨hpoll, hvalid, hbytes, hfull⟩, howner, hpublisher⟩ := hlast
  obtain ⟨hstopped, hcalm⟩ := unstarted_calm hbefore (by decide)
  have hblocked := no_lost_wakeup 4 hbefore hstopped hcalm (by decide) has (by simp [hpoll])
  have hquiet : ∀ c, notifying s c = none := by
    rintro (_ | ⟨⟩)
    · exact howner
    · exact hpublisher
  obtain ⟨hstop, hqueue⟩ := hblocked.2 hpoll hbytes hquiet
  exact ⟨r, s, hbefore, has, hpoll, hvalid, hblocked.1, hstop, hfull, hqueue hvalid⟩

end Loop

end AebNode.TcpServer
