import AebNode.ServerCounters
import AebNode.ServerWakeups

/-! What is left in the queue once the viewer is gone. The loop clears the queue whenever it
finds no session, but a session that ends in its output step is past that point, and poll comes
next. -/
namespace AebNode.TcpServer
open Machine WakePipe

variable {ι : Type*}

/-- A byte in the pipe, or a call of `publish` between its push and the end of its signal. -/
def Announced (s : TcpServer ι) : Prop := 0 < s.wake.bytes ∨ ∃ p, notifying s (some p) ≠ none

/-- The I/O thread reaches poll without a session and without clearing the queue before. -/
inductive Unserved (s : TcpServer ι) : Prop
  | polls (hpc : s.io.pc = .prepare ∨ s.io.pc = .poll) (hnone : s.session.valid = false)
  | head (hgo : s.stopRequested = false) (hpc : s.io.pc = .loopHead)
    (hnone : s.session.valid = false)
  | failed (hgo : s.stopRequested = false) (hpc : s.io.pc = .countProgress)
    (hfailed : s.io.failed = true)
  | ends (hgo : s.stopRequested = false) (hpc : s.io.pc.closing = true)
    (hreturn : s.io.returnTo = .loopHead)

theorem Unserved.live {s : TcpServer ι} (h : Unserved s) :
    s.io.pc ≠ .exited ∧ draining s = none := by
  cases h with
  | polls hpc => rcases hpc with hpc | hpc <;> simp [hpc, draining]
  | head _ hpc => simp [hpc, draining]
  | failed _ hpc => simp [hpc, draining]
  | ends _ hpc =>
    refine ⟨fun he => ?_, if_neg fun hd => ?_⟩
    · simp [he] at hpc
    · simp [hd] at hpc

/-- The places from which the loop reaches poll without clearing the queue. -/
@[simp] def IoPc.beforePoll : IoPc → Bool
  | .loopHead | .prepare | .poll | .countProgress | .closeSession | .clearConnected
  | .countDisconnect => true
  | _ => false

theorem Unserved.place {s : TcpServer ι} (h : Unserved s) : s.io.pc.beforePoll = true := by
  cases h with
  | polls hpc => rcases hpc with hpc | hpc <;> simp [hpc]
  | head _ hpc => simp [hpc]
  | failed _ hpc => simp [hpc]
  | ends _ hpc => cases hplace : s.io.pc <;> simp [hplace] at hpc ⊢

/-- `endSession` comes back to the head of the loop from its call after a failed send alone. -/
theorem Unserved.closing {s : TcpServer ι} (h : Unserved s) (hpc : s.io.pc.closing = true) :
    s.stopRequested = false ∧ s.io.returnTo = .loopHead := by
  cases h with
  | polls hplace => rcases hplace with hplace | hplace <;> simp [hplace] at hpc
  | head _ hplace => simp [hplace] at hpc
  | failed _ hplace => simp [hplace] at hpc
  | ends hgo _ hreturn => exact ⟨hgo, hreturn⟩

theorem Unserved.atPoll {s : TcpServer ι} (h : Unserved s)
    (hpc : s.io.pc = .prepare ∨ s.io.pc = .poll) : s.session.valid = false := by
  cases h with
  | polls _ hnone => exact hnone
  | head _ hplace => simp [hplace] at hpc
  | failed _ hplace => simp [hplace] at hpc
  | ends _ hplace => rcases hpc with hpc | hpc <;> simp [hpc] at hplace

theorem Unserved.atHead {s : TcpServer ι} (h : Unserved s) (hpc : s.io.pc = .loopHead) :
    s.stopRequested = false ∧ s.session.valid = false := by
  cases h with
  | polls hplace => simp [hpc] at hplace
  | head hgo _ hnone => exact ⟨hgo, hnone⟩
  | failed _ hplace => simp [hpc] at hplace
  | ends _ hplace => simp [hpc] at hplace

/-- Past the clearing of the queue the thread is unserved only by a failed send. -/
theorem Unserved.atCount {s : TcpServer ι} (h : Unserved s) (hpc : s.io.pc = .countProgress) :
    s.stopRequested = false ∧ s.io.failed = true := by
  cases h with
  | polls hplace => simp [hpc] at hplace
  | head _ hplace => simp [hpc] at hplace
  | failed hgo _ hfailed => exact ⟨hgo, hfailed⟩
  | ends _ hplace => simp [hpc] at hplace

theorem Unserved.congr {s t : TcpServer ι} (h : Unserved t) (hio : t.io = s.io)
    (hsession : t.session = s.session) (hstop : t.stopRequested = false → s.stopRequested = false) :
    Unserved s := by
  cases h with
  | polls hpc hnone => exact .polls (hio ▸ hpc) (hsession ▸ hnone)
  | head hgo hpc hnone => exact .head (hstop hgo) (hio ▸ hpc) (hsession ▸ hnone)
  | failed hgo hpc hfailed => exact .failed (hstop hgo) (hio ▸ hpc) (hio ▸ hfailed)
  | ends hgo hpc hreturn => exact .ends (hstop hgo) (hio ▸ hpc) (hio ▸ hreturn)

/-- What keeps the queue of an absent viewer from holding frames: a send that fails and a thread
that starts find the queue empty or announced, a new pipe finds no signal of an earlier life
half done, and no publisher relies on the byte that a `stop` is still about to write. -/
def Tidy (s : TcpServer ι) (a : Action ι) : Prop :=
  (a = .io (.send .failed) ∨ a = .owner (.spawn true) → s.queue.empty = true ∨ Announced s) ∧
  (a = .owner (.openWake true) →
    ∀ p, notifying s (some p) ≠ some .write ∧ notifying s (some p) ≠ some .restore) ∧
  ∀ p, a = .publish p (.signal .proceed) → (s.calls p).signal = .exchange →
    s.session.valid = false → s.queue.empty = false → notifying s none ≠ some .write

instance decidableTidy [DecidableEq ι] [Fintype ι] (s : TcpServer ι) (a : Action ι) :
    Decidable (Tidy s a) :=
  have : Decidable (Announced s) := inferInstanceAs (Decidable (_ ∨ ∃ _, _))
  inferInstanceAs (Decidable ((_ → _) ∧ (_ → ∀ _, _) ∧ ∀ _, _ → _ → _ → _ → _))

/-- The invariant of the runs whose steps are all tidy. -/
structure Swept (s : TcpServer ι) : Prop where
  stopping : s.owner.pc = .stopSignal → s.stopRequested = true
  awake : s.io.pc ≠ .exited → WakeInvariant s
  owned : s.joinable = false → s.owner.pc = .startClearStop ∨ s.owner.pc = .startOpenWake →
    Owned s
  fresh : s.joinable = false → s.owner.pc.opened = true →
    s.wake.valid = true ∧ Coalesced s.wake (notifying s) none
  counting : s.io.pc = .countProgress → s.session.valid = true
  leftover : Unserved s → s.queue.empty = false → Announced s

theorem new_swept (capacity : ℕ) : Swept (new capacity : TcpServer ι) where
  stopping h := by simp [new] at h
  awake h := absurd rfl h
  owned _ h := by simp [new] at h
  fresh _ h := by simp [new] at h
  counting h := by simp [new] at h
  leftover h := absurd rfl h.live.1

theorem Swept.of_exited {s : TcpServer ι} (hexited : s.io.pc = .exited)
    (hstopping : s.owner.pc = .stopSignal → s.stopRequested = true)
    (howned : s.joinable = false → s.owner.pc = .startClearStop ∨ s.owner.pc = .startOpenWake →
      Owned s)
    (hfresh : s.joinable = false → s.owner.pc.opened = true →
      s.wake.valid = true ∧ Coalesced s.wake (notifying s) none) : Swept s where
  stopping := hstopping
  awake h := absurd hexited h
  owned := howned
  fresh := hfresh
  counting h := by simp [hexited] at h
  leftover h := absurd hexited h.live.1

theorem signalStep_bytes {w w' : WakePipe} {pc : SignalPc} {event : SignalEvent}
    {next : Option SignalPc} (h : signalStep w pc event = some (w', next)) :
    w.bytes ≤ w'.bytes := by
  cases pc <;> cases event <;> simp only [signalStep, reduceCtorEq, Option.some.injEq,
    Prod.mk.injEq, Option.ite_none_right_eq_some, Option.ite_none_left_eq_some] at h
  case check.proceed | write.interrupted => rw [h.1]
  case exchange.proceed | restore.proceed => rw [← h.1]
  case write.written =>
    rw [← h.2.1]
    exact Nat.le_succ _
  case write.failed => rw [h.2.1]

section Callers
variable [DecidableEq ι]

/-- An announcement outlives a caller's step: a signal that ends leaves a byte, or relies on one
that another publisher is about to write. -/
theorem CallerStep.announced {s t : TcpServer ι} {c : Option ι} (h : CallerStep s t c)
    (hvalid : s.wake.valid = true) (inv : Coalesced s.wake (notifying s) none)
    (howner : notifying s c = some .exchange → notifying t c = none →
      notifying s none ≠ some .write) (hs : Announced s) : Announced t := by
  have hbytes : s.wake.bytes ≤ t.wake.bytes := by
    cases h with
    | quiet hwake => rw [hwake]
    | enters hwake => rw [hwake]
    | signals _ hstep => exact signalStep_bytes hstep
  rcases hs with hpos | ⟨p, hp⟩
  · exact Or.inl (by omega)
  -- The publisher that announces the frames either stays inside its signal or is the one stepping.
  have hother : ∀ next q, notifying t = Function.update (notifying s) c next → some q ≠ c →
      notifying s (some q) ≠ none → Announced t := by
    intro next q hphase hne hq
    refine Or.inr ⟨q, ?_⟩
    rwa [hphase, Function.update_of_ne hne]
  cases h with
  | quiet hwake hphase => exact Or.inr ⟨p, hphase ▸ hp⟩
  | enters hwake hidle hphase =>
    refine hother _ p hphase ?_ hp
    rintro rfl
    exact hp hidle
  | @signals pc event next hc hstep hphase =>
    by_cases hself : some p = c
    · subst hself
      cases next with
      | some pc' => exact Or.inr ⟨p, by simp [hphase]⟩
      | none =>
        cases pc with
        | check => cases event <;> simp [signalStep, hvalid] at hstep
        | exchange =>
          cases event <;> simp only [signalStep, reduceCtorEq, Option.some.injEq, Prod.mk.injEq,
            ite_eq_left_iff, Bool.not_eq_true, imp_false, Bool.not_eq_false] at hstep
          obtain ⟨hwake, hpending⟩ := hstep
          rcases inv.pending_token hpending with hb | ⟨d, hd⟩ | hdrain
          · exact Or.inl (by omega)
          · cases d with
            | none => exact absurd hd (howner hc (by rw [hphase, Function.update_self]))
            | some q =>
              refine hother _ q hphase ?_ (by simp [hd])
              intro heq
              rw [heq, hc] at hd
              cases hd
          · exact absurd rfl hdrain
        | write =>
          cases event <;> simp [signalStep, hvalid] at hstep
          exact Or.inl (by simp [← hstep])
        | restore => exact absurd hc (inv.no_restore _)
    · exact hother _ p hphase hself hp

theorem publishStep_swept {s t : TcpServer ι} {p : ι} {event : PublishEvent} (hs : Swept s)
    (hlife : Lifecycle s) (hcapacity : 0 < s.queue.capacity) (hok : Tidy s (.publish p event))
    (h : s.publishStep p event = some t) : Swept t := by
  have hcaller := publishStep_caller h
  have hqueue := publishStep_queue h
  obtain ⟨hsession, -, hio, howner, hstop, hjoinable⟩ := publishStep_frame h
  constructor
  case stopping =>
    rw [howner, hstop]
    exact hs.stopping
  case awake =>
    rw [hio]
    exact fun hlive => publishStep_wake (hs.awake hlive) hcapacity h
  case owned =>
    rw [hjoinable, howner]
    intro hj hplace
    have hclosed : s.wake.valid = false := by
      apply hlife.closed hj
      rcases hplace with hpc | hpc <;> simp [hpc]
    exact hcaller.owned hclosed (hs.owned hj hplace)
  case fresh =>
    rw [hjoinable, howner]
    intro hj hopened
    obtain ⟨hvalid, hcoalesced⟩ := hs.fresh hj hopened
    exact ⟨hcaller.valid.trans hvalid, hcaller.coalesced hvalid hcoalesced⟩
  case counting =>
    rw [hio, hsession]
    exact hs.counting
  case leftover =>
    intro hunserved hfull
    have hbefore : Unserved s := hunserved.congr hio hsession (hstop ▸ id)
    obtain ⟨hlive, hdrain⟩ := hbefore.live
    have inv := hs.awake hlive
    have hkeep : s.queue.empty = false → Announced t := by
      intro hold
      apply hcaller.announced (inv.valid hlive) (hdrain ▸ inv.coalesced hlive) ?_
        (hs.leftover hbefore hold)
      intro hexchange hreturned hwriter
      have hstopped : s.stopRequested = true := by
        apply hs.stopping
        by_contra hpc
        simp [notifying, hpc] at hwriter
      cases event with
      | signal event =>
        simp only [publishStep, Option.ite_none_right_eq_some, Option.map_eq_some_iff] at h
        obtain ⟨hpc, _, hstep, -⟩ := h
        have hplace : (s.calls p).signal = .exchange := by
          simpa [notifying, hpc] using hexchange
        cases hbefore with
        | polls _ hnone =>
          cases event with
          | proceed => exact hok.2.2 p rfl hplace hnone hold hwriter
          | _ => simp [hplace, signalStep] at hstep
        | head hgo => simp [hgo] at hstopped
        | failed hgo => simp [hgo] at hstopped
        | ends hgo => simp [hgo] at hstopped
      | addDropped =>
        simp only [publishStep, Option.ite_none_right_eq_some, Option.some.injEq] at h
        rw [← h.2] at hreturned
        simp [notifying, setCall] at hreturned
      | _ =>
        simp only [publishStep, Option.ite_none_right_eq_some] at h
        simp [notifying, h.1] at hexchange
    cases event with
    | push =>
      simp only [publishStep, Option.ite_none_right_eq_some, Option.some.injEq] at h
      obtain ⟨-, rfl⟩ := h
      refine Or.inr ⟨p, ?_⟩
      simp only [notifying, setCall, Function.update_self]
      split_ifs <;> simp_all
    | pushThrows =>
      apply hkeep
      simp only at hqueue
      rw [hqueue] at hfull
      simp only [FrameQueue.empty, FrameQueue.pushThrows_queue _ hcapacity] at hfull ⊢
      by_contra hempty
      simp only [Bool.not_eq_false, List.isEmpty_iff] at hempty
      simp [hempty] at hfull
    | _ =>
      simp only at hqueue
      exact hkeep (hqueue ▸ hfull)

omit [DecidableEq ι] in
/-- The stop flag is up throughout the signal of `stop`, and goes down only in `start`. -/
theorem ownerStep_stopRequested {s t : TcpServer ι} {event : OwnerEvent}
    (h : s.ownerStep event = some t) :
    ((s.owner.pc = .stopSignal → s.stopRequested = true) →
      t.owner.pc = .stopSignal → t.stopRequested = true) ∧
    (t.stopRequested = false → s.stopRequested = false ∨ s.owner.pc = .startClearStop) := by
  cases event <;> simp only [ownerStep] at h
  case stop =>
    simp only [Option.ite_none_right_eq_some, Option.some.injEq] at h
    obtain ⟨-, rfl⟩ := h
    exact ⟨fun _ _ => rfl, by simp⟩
  case signal event =>
    simp only [Option.ite_none_right_eq_some, Option.map_eq_some_iff] at h
    obtain ⟨hpc, _, -, rfl⟩ := h
    exact ⟨fun hs _ => hs hpc, Or.inl⟩
  case start =>
    simp only [Option.ite_none_right_eq_some, Option.some.injEq] at h
    obtain ⟨-, rfl⟩ := h
    cases s.running <;> exact ⟨fun _ hpc => by simp at hpc, Or.inl⟩
  case clearStop =>
    simp only [Option.ite_none_right_eq_some, Option.some.injEq] at h
    obtain ⟨hpc, rfl⟩ := h
    exact ⟨fun _ hpc => by simp at hpc, fun _ => Or.inr hpc⟩
  case openWake succeeds | listen succeeds =>
    simp only [Option.ite_none_right_eq_some, Option.some.injEq] at h
    obtain ⟨-, rfl⟩ := h
    cases succeeds <;> exact ⟨fun _ hpc => by simp at hpc, Or.inl⟩
  all_goals
    split_ifs at h <;> obtain rfl := Option.some.inj h <;>
      exact ⟨fun _ hpc => by simp at hpc, Or.inl⟩

omit [DecidableEq ι] in
theorem notifying_congr {s t : TcpServer ι} (hcalls : t.calls = s.calls)
    (hs : s.owner.pc ≠ .stopSignal) (ht : t.owner.pc ≠ .stopSignal) :
    notifying t = notifying s := by
  funext c
  cases c with
  | none => simp [notifying, hs, ht]
  | some p => simp only [notifying, hcalls]

theorem ownerStep_live {s t : TcpServer ι} {event : OwnerEvent} (hlife : Lifecycle s)
    (inv : WakeInvariant s) (hlive : s.io.pc ≠ .exited) (h : s.ownerStep event = some t) :
    CallerStep s t none ∧ t.io = s.io ∧ WakeInvariant t := by
  obtain ⟨-, hup, hplace⟩ := hlife.live hlive
  obtain ⟨hstops, -, hjoined⟩ := OwnerPc.leavesThread_stops hplace
  by_cases hstart : event = .start
  · subst hstart
    simp only [ownerStep, Option.ite_none_right_eq_some, Option.some.injEq] at h
    obtain ⟨hpc, ht⟩ := h
    have howner : t.owner.pc = .idle := by simp [← ht, hup]
    have hquiet : CallerStep s t none := by
      refine .quiet (by rw [← ht]) (notifying_congr (by rw [← ht]) (by simp [hpc]) ?_)
      simp [howner]
    have hio : t.io = s.io := by rw [← ht]
    have hunjoined : t.joinable = false → t.io.pc = .exited := by
      rw [← ht]
      exact inv.unjoined
    exact ⟨hquiet, hio, inv.caller hquiet hio (by rw [← ht]) (by simp [howner])
      (by simp [howner]) hunjoined (Or.inl (by rw [← ht])) (Or.inl (by rw [← ht]; exact id))⟩
  · obtain ⟨-, hio, -, hcaller⟩ := ownerStep_caller hstops hstart h
    refine ⟨?_, hio, ownerStep_wake inv hstart h⟩
    rcases hcaller with hcaller | hafter
    · exact hcaller
    · exact absurd hafter (hjoined ▸ Bool.false_ne_true)

theorem owner_live_swept {s t : TcpServer ι} {event : OwnerEvent} (hs : Swept s)
    (hlife : Lifecycle s) (hlive : s.io.pc ≠ .exited) (h : s.ownerStep event = some t) :
    Swept t := by
  obtain ⟨hqueue, hsession, -, -, -⟩ := ownerStep_frame h
  obtain ⟨hstopping, hstop⟩ := ownerStep_stopRequested h
  have inv := hs.awake hlive
  obtain ⟨hcaller, hio, inv'⟩ := ownerStep_live hlife inv hlive h
  have hheld : t.joinable ≠ false := fun hj => hlive (hio ▸ inv'.unjoined hj)
  refine ⟨hstopping hs.stopping, fun _ => inv', fun hj => absurd hj hheld,
    fun hj => absurd hj hheld, ?_, fun hunserved hfull => ?_⟩
  · rw [hio, hsession]
    exact hs.counting
  · have hgo : t.stopRequested = false → s.stopRequested = false := by
      intro hdown
      rcases hstop hdown with hsame | hpc
      · exact hsame
      · have hplace := (hlife.live hlive).2.2
        simp [hpc] at hplace
    have hbefore : Unserved s := hunserved.congr hio hsession hgo
    have hdrain := hbefore.live.2
    refine hcaller.announced (inv.valid hlive) (hdrain ▸ inv.coalesced hlive) ?_
      (hs.leftover hbefore (hqueue ▸ hfull))
    intro hexchange _ hwriter
    rw [hexchange] at hwriter
    cases hwriter

omit [DecidableEq ι] in
theorem spawn_swept {s t : TcpServer ι} (hs : Swept s) (hj : s.joinable = false)
    (hok : Tidy s (.owner (.spawn true))) (h : s.ownerStep (.spawn true) = some t) : Swept t := by
  simp only [ownerStep, Option.ite_none_right_eq_some, Option.some.injEq, hj] at h
  obtain ⟨hpc, rfl⟩ := h
  obtain ⟨hvalid, hcoalesced⟩ := hs.fresh hj (by simp [hpc])
  have hphase : notifying ({ s with
      joinable := true
      io := { pc := .loopHead }
      owner := { pc := .idle } } : TcpServer ι) = notifying s :=
    notifying_congr rfl (by simp [hpc]) (by simp)
  refine ⟨by simp, fun _ => ?_, by simp, by simp, by simp, fun _ hfull => ?_⟩
  · refine ⟨rfl, by simp, by simp, fun _ => rfl, fun _ => hvalid, fun _ => ?_, by simp,
      by simp, by simp⟩
    simp only [draining]
    rw [if_neg (by simp)]
    exact hphase ▸ hcoalesced
  · rcases hok.1 (Or.inr rfl) with hempty | hannounced
    · rw [show s.queue.empty = false from hfull] at hempty
      cases hempty
    · rcases hannounced with hpos | ⟨p, hp⟩
      · exact Or.inl hpos
      · exact Or.inr ⟨p, hphase ▸ hp⟩

omit [DecidableEq ι] in
theorem stopping_swept {s t : TcpServer ι} {event : OwnerEvent} (hs : Swept s)
    (hexited : s.io.pc = .exited) (hphase : event.stopping = true)
    (h : s.ownerStep event = some t) : Swept t := by
  have hstopping := (ownerStep_stopRequested h).1 hs.stopping
  cases event <;> simp only [OwnerEvent.stopping, Bool.false_eq_true] at hphase <;>
    simp only [ownerStep, Option.ite_none_right_eq_some, Option.some.injEq,
      Option.map_eq_some_iff] at h
  case signal event =>
    obtain ⟨hpc, ⟨_, next⟩, -, rfl⟩ := h
    cases next <;> exact .of_exited hexited hstopping (by simp [hpc]) (by simp [hpc])
  case resetEnds | clearPending | clearRunning =>
    split_ifs at h <;> obtain rfl := Option.some.inj h <;>
      exact .of_exited hexited hstopping (by simp) (by simp)
  all_goals
    obtain ⟨-, rfl⟩ := h
    exact .of_exited hexited hstopping (by simp) (by simp)

omit [DecidableEq ι] in
/-- Of the calls that `start` makes the opening of the pipe finds no writer left. -/
theorem openWake_swept {s t : TcpServer ι} (hs : Swept s) (hexited : s.io.pc = .exited)
    (hok : Tidy s (.owner (.openWake true))) (h : s.ownerStep (.openWake true) = some t) :
    Swept t := by
  have hstopping := (ownerStep_stopRequested h).1 hs.stopping
  obtain ⟨-, -, -, hcalls, -⟩ := ownerStep_frame h
  simp only [ownerStep, Option.ite_none_right_eq_some, Option.some.injEq] at h
  obtain ⟨hpc, ht⟩ := h
  have hnone : ∀ c, notifying s c ≠ some .write ∧ notifying s c ≠ some .restore := by
    intro c
    cases c with
    | none => simp [notifying, hpc]
    | some p => exact hok.2.1 rfl p
  have hphase : notifying t = notifying s :=
    notifying_congr hcalls (by simp [hpc]) (by simp [← ht])
  subst ht
  refine .of_exited hexited hstopping (by simp) (fun hj _ => ⟨rfl, ?_⟩)
  have hpending : s.wake.pending = false := by
    by_contra hup
    rcases hs.owned hj (Or.inr hpc) (by simpa using hup) with ⟨c, hc | hc⟩
    · exact (hnone c).1 hc
    · exact (hnone c).2 hc
  rw [hphase]
  refine coalesced_of_no_writer (fun c => (hnone c).1) (fun c => (hnone c).2)
    (by simp [opened]) (by simp [opened]) (by simp) (by simp) ?_
  simp [opened, hpending]

omit [DecidableEq ι] in
theorem starting_swept {s t : TcpServer ι} {event : OwnerEvent} (hs : Swept s)
    (hlife : Lifecycle s) (hexited : s.io.pc = .exited) (hok : Tidy s (.owner event))
    (hphase : event.stopping = false) (hspawn : event = .spawn true → s.joinable = true)
    (h : s.ownerStep event = some t) : Swept t := by
  have hstopping := (ownerStep_stopRequested h).1 hs.stopping
  obtain ⟨-, -, -, hcalls, -⟩ := ownerStep_frame h
  cases event <;> simp only [OwnerEvent.stopping, Bool.true_eq_false] at hphase
  case openWake succeeds =>
    cases succeeds with
    | true => exact openWake_swept hs hexited hok h
    | false =>
      simp only [ownerStep, Option.ite_none_right_eq_some, Option.some.injEq] at h
      obtain ⟨hpc, ht⟩ := h
      subst ht
      exact .of_exited hexited hstopping (by simp) (by simp)
  all_goals simp only [ownerStep, Option.ite_none_right_eq_some, Option.some.injEq] at h
  case start =>
    obtain ⟨hpc, rfl⟩ := h
    refine .of_exited hexited hstopping (fun hj _ => ?_) (fun _ hopened => ?_)
    · exact (hlife.owned hj (by simp [hpc])).congr rfl rfl (by simp [hpc])
    · cases hrunning : s.running <;> simp [hrunning] at hopened
  case clearStop =>
    obtain ⟨hpc, rfl⟩ := h
    refine .of_exited hexited hstopping (fun hj _ => ?_) (by simp)
    exact (hs.owned hj (Or.inl hpc)).congr rfl rfl (by simp [hpc])
  case listen succeeds =>
    obtain ⟨hpc, ht⟩ := h
    cases succeeds with
    | false =>
      subst ht
      exact .of_exited hexited hstopping (by simp) (by simp)
    | true =>
      have hphase : notifying t = notifying s :=
        notifying_congr hcalls (by simp [hpc]) (by simp [← ht])
      subst ht
      refine .of_exited hexited hstopping (by simp) (fun hj _ => ?_)
      rw [hphase]
      exact hs.fresh hj (by simp [hpc])
  case setRunning =>
    obtain ⟨hpc, ht⟩ := h
    have hphase : notifying t = notifying s :=
      notifying_congr hcalls (by simp [hpc]) (by simp [← ht])
    subst ht
    refine .of_exited hexited hstopping (by simp) (fun hj _ => ?_)
    rw [hphase]
    exact hs.fresh hj (by simp [hpc])
  case spawn succeeds =>
    obtain ⟨hpc, rfl⟩ := h
    cases succeeds with
    | false => exact .of_exited hexited hstopping (by simp) (by simp)
    | true =>
      have hj : s.joinable = true := by simpa using hspawn
      simp only [hj, not_true, if_false, if_true]
      exact .of_exited hexited (by simp) (by simp) (by simp)

theorem ownerStep_swept {s t : TcpServer ι} {event : OwnerEvent} (hs : Swept s)
    (hlife : Lifecycle s) (hok : Tidy s (.owner event))
    (h : s.ownerStep event = some t) : Swept t := by
  by_cases hexited : s.io.pc = .exited
  · by_cases hspawn : event = .spawn true ∧ s.joinable = false
    · obtain ⟨rfl, hj⟩ := hspawn
      exact spawn_swept hs hj hok h
    · cases hphase : event.stopping with
      | true => exact stopping_swept hs hexited hphase h
      | false =>
        refine starting_swept hs hlife hexited hok hphase (fun he => ?_) h
        simpa [he] using hspawn
  · exact owner_live_swept hs hlife hexited h

omit [DecidableEq ι] in
theorem Unserved.returned {s t : TcpServer ι} (h : Unserved t)
    (hreturn : s.io.returnTo.awaitsEndSession = true) (hclosing : s.io.pc.closing = true)
    (hio : t.io = { s.io with pc := s.io.returnTo })
    (hstop : t.stopRequested = s.stopRequested) : Unserved s := by
  have hpc : t.io.pc = s.io.returnTo := by rw [hio]
  have hplace := h.place
  cases hback : s.io.returnTo <;> simp [hback, IoPc.awaitsEndSession] at hreturn <;>
    rw [hpc, hback] at hplace <;> simp at hplace
  cases h with
  | polls hp => rcases hp with hp | hp <;> simp [hpc, hback] at hp
  | head hgo => exact .ends (hstop ▸ hgo) hclosing hback
  | failed _ hp => simp [hpc, hback] at hp
  | ends _ hp => simp [hpc, hback] at hp

/-- The loop gets past the clearing of the queue only without frames, or by a send that fails. -/
structure Passes (s t : TcpServer ι) (event : IoEvent) : Prop where
  counting : t.io.pc = .countProgress → t.session.valid = true
  unserved : Unserved t → t.queue.empty = true ∨ t.queue = s.queue ∧ t.wake = s.wake ∧
    (Unserved s ∨ event = .send .failed)

omit [DecidableEq ι] in
theorem Passes.of_later {s t : TcpServer ι} {event : IoEvent}
    (hplace : t.io.pc.beforePoll = false) : Passes s t event where
  counting hpc := by simp [hpc] at hplace
  unserved ht := absurd ht.place (hplace ▸ Bool.false_ne_true)

omit [DecidableEq ι] in
/-- A call of `endSession` from anywhere but the output step is no way past the clearing. -/
theorem Passes.of_call {s t : TcpServer ι} {event : IoEvent} {io : IoThread} {errorRelated : Bool}
    {returnTo : IoPc} (hio : t.io = callEndSession io errorRelated returnTo)
    (hback : returnTo ≠ .loopHead) : Passes s t event := by
  have hpc : t.io.pc = .closeSession := by rw [hio, callEndSession]
  have hto : t.io.returnTo = returnTo := by rw [hio, callEndSession]
  exact ⟨fun hcount => by simp [hpc] at hcount,
    fun ht => absurd (hto ▸ (ht.closing (by simp [hpc])).2) hback⟩

omit [DecidableEq ι] in
theorem polling_passes {s t : TcpServer ι} {event : IoEvent}
    (hphase : event.phase = .polling) (h : s.ioStep event = some t) : Passes s t event := by
  cases event <;> simp only [IoEvent.phase, reduceCtorEq] at hphase <;>
    simp only [ioStep, Option.ite_none_right_eq_some, Option.some.injEq,
      Option.map_eq_some_iff] at h
  case loadStop =>
    obtain ⟨hpc, rfl⟩ := h
    cases hgo : s.stopRequested with
    | true =>
      exact .of_call rfl (by simp)
    | false =>
      refine ⟨by simp, fun ht => Or.inr ⟨rfl, rfl, Or.inl ?_⟩⟩
      exact .head hgo hpc (ht.atPoll (by simp))
  case prepare =>
    obtain ⟨hpc, rfl⟩ := h
    refine ⟨by simp, fun ht => Or.inr ⟨rfl, rfl, Or.inl ?_⟩⟩
    exact .polls (Or.inl hpc) (ht.atPoll (by simp))
  case pollFails interrupted =>
    obtain ⟨hpc, rfl⟩ := h
    cases interrupted with
    | true =>
      refine ⟨by simp, fun ht => Or.inr ⟨rfl, rfl, Or.inl ?_⟩⟩
      exact .polls (Or.inr hpc) (ht.atHead (by simp)).2
    | false => exact .of_call rfl (by simp)
  case pollReturns wake listen events =>
    obtain ⟨-, rfl⟩ := h
    cases wake <;> exact .of_later rfl
  case drain event =>
    obtain ⟨hpc, ⟨_, next⟩, -, rfl⟩ := h
    cases next
    · exact .of_later rfl
    · exact .of_later (by simp [hpc])
  case clientEvents =>
    obtain ⟨-, rfl⟩ := h
    split_ifs
    · exact .of_call rfl (by simp)
    all_goals exact .of_later rfl
  case recv result =>
    obtain ⟨hpc, rfl⟩ := h
    cases result
    case closed | failed => exact .of_call rfl (by simp)
    all_goals exact .of_later (by simp [hpc])
  case listenEvents =>
    obtain ⟨-, rfl⟩ := h
    exact .of_later (by cases s.io.listenReady <;> rfl)

omit [DecidableEq ι] in
theorem accepting_passes {s t : TcpServer ι} {event : IoEvent}
    (hphase : event.phase = .accepting) (h : s.ioStep event = some t) : Passes s t event := by
  cases event <;> simp only [IoEvent.phase, reduceCtorEq] at hphase <;>
    simp only [ioStep, Option.ite_none_right_eq_some, Option.some.injEq] at h
  case accept result =>
    obtain ⟨hpc, h⟩ := h
    cases result <;> obtain rfl := Option.some.inj h
    case connected =>
      split_ifs
      · exact .of_call rfl (by simp)
      · exact .of_later rfl
    all_goals exact .of_later (by simp [hpc])
  all_goals
    obtain ⟨-, rfl⟩ := h
    exact .of_later rfl

omit [DecidableEq ι] in
theorem output_passes {s t : TcpServer ι} {event : IoEvent} (hseated : Seated s)
    (hcounting : s.io.pc = .countProgress → s.session.valid = true)
    (hphase : event.phase = .output) (h : s.ioStep event = some t) : Passes s t event := by
  cases event <;> simp only [IoEvent.phase, reduceCtorEq] at hphase <;>
    simp only [ioStep, Option.ite_none_right_eq_some, Option.some.injEq] at h
  case service =>
    obtain ⟨-, rfl⟩ := h
    split_ifs
    · exact .of_later rfl
    · exact ⟨by simp, fun _ => Or.inl (by simp [FrameQueue.empty, FrameQueue.clear_queue])⟩
  case pump =>
    obtain ⟨hpc, h⟩ := h
    have hvalid := hseated.attached (by simp [hpc])
    split_ifs at h with hinvalid hoffset hpopped <;> obtain rfl := Option.some.inj h
    · simp [hvalid] at hinvalid
    · exact .of_later rfl
    · exact .of_later rfl
    · refine ⟨fun _ => hvalid, fun ht => ?_⟩
      have hfailed := (ht.atCount rfl).2
      cases hfailed
  case send result =>
    obtain ⟨hpc, h⟩ := h
    have hvalid := hseated.attached (by simp [hpc])
    cases result <;> simp only [Option.ite_none_right_eq_some, Option.some.injEq] at h
    case written =>
      obtain ⟨-, rfl⟩ := h
      exact .of_later rfl
    case interrupted =>
      subst h
      exact .of_later rfl
    case wouldBlock =>
      subst h
      refine ⟨fun _ => hvalid, fun ht => ?_⟩
      have hfailed := (ht.atCount rfl).2
      cases hfailed
    case failed =>
      subst h
      exact ⟨fun _ => hvalid, fun _ => Or.inr ⟨rfl, rfl, Or.inr rfl⟩⟩
  case countProgress =>
    obtain ⟨hpc, rfl⟩ := h
    have hvalid := hcounting hpc
    cases hfailed : s.io.failed with
    | true =>
      refine ⟨by simp [callEndSession], fun ht => Or.inr ⟨rfl, rfl, Or.inl ?_⟩⟩
      exact .failed (ht.closing (by simp [callEndSession])).1 hpc hfailed
    | false =>
      refine ⟨by simp, fun ht => ?_⟩
      have hnone := (ht.atHead (by simp)).2
      simp [hvalid] at hnone

omit [DecidableEq ι] in
theorem ending_passes {s t : TcpServer ι} {event : IoEvent} (hseated : Seated s)
    (hphase : event.phase = .ending) (h : s.ioStep event = some t) : Passes s t event := by
  have hreturn : s.io.returnTo ≠ .countProgress := by
    intro hr
    have := hseated.returnTo
    simp [hr, IoPc.awaitsEndSession] at this
  cases event <;> simp only [IoEvent.phase, reduceCtorEq] at hphase <;>
    simp only [ioStep, Option.ite_none_right_eq_some, Option.some.injEq] at h
  case closeSession =>
    obtain ⟨hpc, rfl⟩ := h
    split_ifs
    · refine ⟨by simp, fun ht => Or.inr ⟨rfl, rfl, Or.inl ?_⟩⟩
      obtain ⟨hgo, hback⟩ := ht.closing (by simp)
      exact .ends hgo (by simp [hpc]) hback
    · exact ⟨fun hback => absurd hback hreturn, fun ht => Or.inr ⟨rfl, rfl, Or.inl
        (ht.returned hseated.returnTo (by simp [hpc]) rfl rfl)⟩⟩
  case clearConnected =>
    obtain ⟨hpc, rfl⟩ := h
    refine ⟨by simp, fun ht => Or.inr ⟨rfl, rfl, Or.inl ?_⟩⟩
    obtain ⟨hgo, hback⟩ := ht.closing (by simp)
    exact .ends hgo (by simp [hpc]) hback
  case countDisconnect =>
    obtain ⟨hpc, rfl⟩ := h
    exact ⟨fun hback => absurd hback hreturn, fun ht => Or.inr ⟨rfl, rfl, Or.inl
      (ht.returned hseated.returnTo (by simp [hpc]) rfl rfl)⟩⟩
  all_goals
    obtain ⟨-, rfl⟩ := h
    exact .of_later rfl

omit [DecidableEq ι] in
theorem ioStep_passes {s t : TcpServer ι} {event : IoEvent} (hseated : Seated s)
    (hcounting : s.io.pc = .countProgress → s.session.valid = true)
    (h : s.ioStep event = some t) : Passes s t event := by
  cases hphase : event.phase with
  | polling => exact polling_passes hphase h
  | accepting => exact accepting_passes hphase h
  | output => exact output_passes hseated hcounting hphase h
  | ending => exact ending_passes hseated hphase h

omit [DecidableEq ι] in
theorem ioStep_swept {s t : TcpServer ι} {event : IoEvent} (hs : Swept s) (hlife : Lifecycle s)
    (hseated : Seated s) (hok : Tidy s (.io event)) (h : s.ioStep event = some t) : Swept t := by
  obtain ⟨-, howner, hstop, hjoinable⟩ := ioStep_threads h
  obtain ⟨hlive, -⟩ := ioStep_running h
  obtain ⟨hheld, -, -⟩ := hlife.live hlive
  have hnever : t.joinable ≠ false := by simp [hjoinable, hheld]
  have inv := hs.awake hlive
  obtain ⟨hcounting, hunserved⟩ := ioStep_passes hseated hs.counting h
  refine ⟨?_, fun _ => ioStep_wake inv h, fun hj => absurd hj hnever,
    fun hj => absurd hj hnever, hcounting, fun ht hfull => ?_⟩
  · rw [howner, hstop]
    exact hs.stopping
  rcases hunserved ht with hempty | ⟨hqueue, hwake, hbefore⟩
  · simp [hfull] at hempty
  · rw [hqueue] at hfull
    have hannounced : Announced s := by
      rcases hbefore with hbefore | rfl
      · exact hs.leftover hbefore hfull
      · rcases hok.1 (Or.inl rfl) with hempty | hannounced
        · simp [hfull] at hempty
        · exact hannounced
    rw [Announced, hwake, ioStep_notifying h]
    exact hannounced

theorem step_swept {s t : TcpServer ι} {a : Action ι} (hs : Swept s) (hlife : Lifecycle s)
    (hseated : Seated s) (hcapacity : 0 < s.queue.capacity) (hok : Tidy s a)
    (h : s.step a = some t) : Swept t := by
  simp only [step, Option.ite_none_left_eq_some] at h
  cases a with
  | publish p event => exact publishStep_swept hs hlife hcapacity hok h.2
  | owner event => exact ownerStep_swept hs hlife hok h.2
  | io event => exact ioStep_swept hs hlife hseated hok h.2

/-- Over every run of tidy steps, through any number of starts and stops: while the I/O thread
waits in poll without a session, with no byte in the pipe and no call of `publish` in progress,
the queue is empty. -/
theorem viewerless_queue_empty (capacity : ℕ) {as : List (Action ι)} {s : TcpServer ι}
    (htidy : Along Tidy step (new capacity) as) (h : exec step (new capacity) as = some s)
    (hpoll : s.io.pc = .poll) (hnone : s.session.valid = false) (hbytes : s.wake.bytes = 0)
    (hidle : ∀ p, (s.calls p).pc = .idle) : s.queue.empty = true := by
  let inv := fun s : TcpServer ι =>
    (∃ w, Lifecycle s ∧ Seated s ∧ Counted w s) ∧ 0 < s.queue.capacity ∧ Swept s
  have hkeep : ∀ (s : TcpServer ι) a t, inv s → Tidy s a → step s a = some t → inv t := by
    rintro s a t ⟨⟨w, hs⟩, hcapacity, hswept⟩ hok hstep
    refine ⟨⟨_, step_counted hs hstep⟩, (step_capacity hstep).symm ▸ hcapacity, ?_⟩
    exact step_swept hswept hs.1 hs.2.1 hcapacity hok hstep
  have hnew : inv (new capacity) := by
    refine ⟨⟨[], new_lifecycle capacity, new_seated capacity, new_counted capacity⟩, ?_,
      new_swept capacity⟩
    simp only [new, FrameQueue.new]
    split_ifs <;> omega
  have hlast := (exec_invariant_along hkeep hnew htidy h).2.2
  by_contra hfull
  rcases hlast.leftover (.polls (Or.inr hpoll) hnone) (by simpa using hfull) with hpos | ⟨p, hp⟩
  · omega
  · simp [notifying, hidle p] at hp

/-- A first viewer, and calls of `publish` that queue `frames` frames for it, of which only the
first writes to the pipe; then the send of the first frame fails, and the loop goes back to
poll. -/
def failedSendActions (frames : ℕ) : List (Action Unit) :=
  startActions ++ acceptActions ++ publishActions () {} ++
  (List.replicate frames ((publishActions () {}).take 6)).flatten ++ wakeActions ++
  ([.io .pump, .io (.send .failed), .io .countProgress, .io .closeSession, .io .clearConnected,
    .io .countDisconnect, .io .loadStop, .io .prepare] : List (Action Unit))

/-- With a single frame queued nothing is left when the send fails. -/
theorem viewerless_queue_empty_single : ∃ s, exec step (new 4) (failedSendActions 0) = some s ∧
    s.io.pc = .poll ∧ s.queue.empty = true := by
  have hrun : (exec step (new 4) (failedSendActions 0)).map (fun s =>
      (s.io.pc, s.session.valid, s.wake.bytes, (s.calls ()).pc)) =
      some (.poll, false, 0, .idle) := by decide +kernel
  obtain ⟨s, hs, hlast⟩ := Option.map_eq_some_iff.mp hrun
  simp only [Prod.mk.injEq] at hlast
  obtain ⟨hpoll, hnone, hbytes, hidle⟩ := hlast
  exact ⟨s, hs, hpoll, viewerless_queue_empty 4 (by decide +kernel) hs hpoll hnone hbytes
    fun _ => hidle⟩

/-- With a second frame behind it, that frame stays queued while the loop waits in poll, and
nothing is on its way to wake it. -/
theorem failed_send_keeps_frame : ∃ s, exec step (new 4) (failedSendActions 1) = some s ∧
    s.io.pc = .poll ∧ s.session.valid = false ∧ s.wake.bytes = 0 ∧
    (∀ p, (s.calls p).pc = .idle) ∧ s.queue.empty = false := by
  have hrun : (exec step (new 4) (failedSendActions 1)).map (fun s =>
      (s.io.pc, s.session.valid, s.wake.bytes, (s.calls ()).pc, s.queue.empty)) =
      some (.poll, false, 0, .idle, false) := by decide +kernel
  obtain ⟨s, hs, hlast⟩ := Option.map_eq_some_iff.mp hrun
  simp only [Prod.mk.injEq] at hlast
  obtain ⟨hpoll, hnone, hbytes, hidle, hfull⟩ := hlast
  exact ⟨s, hs, hpoll, hnone, hbytes, fun _ => hidle, hfull⟩

end Callers

end AebNode.TcpServer
