import AebNode.ServerHistory

/-! The callers of `signal`: publishers after their push and the owner in `stop`. How any step
of theirs bears on the wake pipe is one of three things. -/
namespace AebNode.TcpServer
open Machine WakePipe

variable {ι : Type*}

/-- Where a caller is between its push, or the store of the stop flag, and the end of its
signal: publisher `p` as `some p`, the owner in `stop` as `none`. -/
def notifying (s : TcpServer ι) : Option ι → Option SignalPc
  | some p =>
    if (s.calls p).pc = .addDropped ∨ (s.calls p).pc = .signal then some (s.calls p).signal
    else none
  | none => if s.owner.pc = .stopSignal then some s.owner.signal else none

@[simp] def OwnerPc.stops : OwnerPc → Bool
  | .idle | .stopSignal | .stopJoin | .stopResetEnds | .stopClearPending | .stopClearConnected
  | .stopClearRunning => true
  | _ => false

@[simp] def OwnerPc.joined : OwnerPc → Bool
  | .stopResetEnds | .stopClearPending | .stopClearConnected | .stopClearRunning => true
  | _ => false

variable [DecidableEq ι]

/-- How one caller's step bears on the pipe: not at all, by beginning to notify, or by a step
of its `signal`. -/
inductive CallerStep (s t : TcpServer ι) (c : Option ι) : Prop
  | quiet (hwake : t.wake = s.wake) (hphase : notifying t = notifying s)
  | enters (hwake : t.wake = s.wake) (hidle : notifying s c = none)
      (hphase : notifying t = Function.update (notifying s) c (some .check))
  | signals {pc event next} (hc : notifying s c = some pc)
      (hstep : signalStep s.wake pc event = some (t.wake, next))
      (hphase : notifying t = Function.update (notifying s) c next)

theorem CallerStep.valid {s t : TcpServer ι} {c : Option ι} (h : CallerStep s t c) :
    t.wake.valid = s.wake.valid := by
  cases h with
  | quiet hwake => rw [hwake]
  | enters hwake => rw [hwake]
  | signals hc hstep => exact signalStep_valid hstep

theorem CallerStep.coalesced {s t : TcpServer ι} {c : Option ι} {drain : Option DrainPc}
    (h : CallerStep s t c) (hvalid : s.wake.valid = true)
    (inv : Coalesced s.wake (notifying s) drain) : Coalesced t.wake (notifying t) drain := by
  cases h with
  | quiet hwake hphase => rwa [hwake, hphase]
  | enters hwake hidle hphase =>
    rw [hwake, hphase]
    exact inv.update (by simp [hidle]) (by simp) (by simp)
  | signals hc hstep hphase =>
    rw [hphase]
    exact inv.signalled hvalid hc hstep

theorem CallerStep.alert {s t : TcpServer ι} {c : Option ι} (h : CallerStep s t c)
    (hvalid : s.wake.valid = true) (inv : Coalesced s.wake (notifying s) none)
    (halert : Alert s.wake (notifying s)) : Alert t.wake (notifying t) := by
  cases h with
  | quiet hwake hphase => rwa [hwake, hphase]
  | enters hwake hidle hphase => exact Or.inr ⟨c, by simp [hphase]⟩
  | signals hc hstep hphase =>
    rw [hphase]
    exact inv.signal_alert hvalid hc hstep

theorem publishStep_caller {s t : TcpServer ι} {p : ι} {event : PublishEvent}
    (h : s.publishStep p event = some t) : CallerStep s t (some p) := by
  have hphase : ∀ call, t.calls = Function.update s.calls p call → t.owner = s.owner →
      notifying t = Function.update (notifying s) (some p)
        (if call.pc = .addDropped ∨ call.pc = .signal then some call.signal else none) := by
    intro call hcalls howner
    funext c
    cases c with
    | none => simp [notifying, howner]
    | some q =>
      by_cases hq : q = p
      · subst hq
        simp [notifying, hcalls]
      · have hne : some q ≠ some p := by simpa using hq
        simp only [notifying, hcalls, Function.update_of_ne hq, Function.update_of_ne hne]
  have hquiet : ∀ call, t.calls = Function.update s.calls p call → t.owner = s.owner →
      t.wake = s.wake →
      (if call.pc = .addDropped ∨ call.pc = .signal then some call.signal else none) =
        notifying s (some p) → CallerStep s t (some p) := by
    intro call hcalls howner hwake heq
    refine .quiet hwake ?_
    rw [hphase call hcalls howner, heq, Function.update_eq_self]
  cases event <;> simp only [publishStep, Option.ite_none_right_eq_some, Option.some.injEq,
    Option.map_eq_some_iff] at h
  case push =>
    obtain ⟨hpc, rfl⟩ := h
    refine .enters rfl (by simp [notifying, hpc]) ?_
    rw [hphase _ rfl rfl]
    congr 1
    dsimp only
    split_ifs <;> simp_all
  case signal event =>
    obtain ⟨hpc, ⟨w, next⟩, hstep, rfl⟩ := h
    refine .signals (by simp [notifying, hpc]) hstep ?_
    rw [hphase _ rfl rfl]
    cases next <;> simp [hpc]
  case loadConnected =>
    obtain ⟨hpc, rfl⟩ := h
    refine hquiet _ rfl rfl rfl ?_
    cases s.clientConnected <;> simp [notifying, hpc]
  case loadRunning =>
    obtain ⟨hpc, rfl⟩ := h
    refine hquiet _ rfl rfl rfl ?_
    cases s.running <;> simp [notifying, hpc]
  all_goals
    obtain ⟨hpc, rfl⟩ := h
    refine hquiet _ rfl rfl rfl ?_
    simp [notifying, hpc]

/-- While the owner is not starting the server, its steps are those of a caller of `signal`
or come after the join. -/
theorem ownerStep_caller {s t : TcpServer ι} {event : OwnerEvent} (hstops : s.owner.pc.stops = true)
    (hstart : event ≠ .start) (h : s.ownerStep event = some t) :
    t.owner.pc.stops = true ∧ t.io = s.io ∧ (t.owner.pc.joined = true →
      s.owner.pc.joined = true ∨ event = .join) ∧
      (CallerStep s t none ∨ s.owner.pc.joined = true) := by
  have hphase : ∀ phase, t.calls = s.calls →
      (if t.owner.pc = .stopSignal then some t.owner.signal else none) = phase →
      notifying t = Function.update (notifying s) none phase := by
    intro phase hcalls howner
    funext c
    cases c with
    | none => simpa [notifying] using howner
    | some p => simp [notifying, hcalls]
  have hquiet : t.wake = s.wake → t.calls = s.calls →
      (if t.owner.pc = .stopSignal then some t.owner.signal else none) = notifying s none →
      CallerStep s t none := by
    intro hwake hcalls howner
    exact .quiet hwake (by rw [hphase _ hcalls howner, Function.update_eq_self])
  cases event <;> simp only [ownerStep] at h
  case start => exact absurd rfl hstart
  case stop =>
    simp only [Option.ite_none_right_eq_some, Option.some.injEq] at h
    obtain ⟨hpc, rfl⟩ := h
    exact ⟨rfl, rfl, by simp,
      Or.inl (.enters rfl (by simp [notifying, hpc]) (hphase _ rfl rfl))⟩
  case signal event =>
    simp only [Option.ite_none_right_eq_some, Option.map_eq_some_iff] at h
    obtain ⟨hpc, ⟨w, next⟩, hsignal, rfl⟩ := h
    have hcaller : CallerStep s _ none :=
      .signals (by simp [notifying, hpc]) hsignal (hphase next rfl (by cases next <;> simp [hpc]))
    cases next with
    | none => exact ⟨rfl, rfl, by simp, Or.inl hcaller⟩
    | some pc => exact ⟨hstops, rfl, by simp [hpc], Or.inl hcaller⟩
  case join =>
    simp only [Option.ite_none_right_eq_some, Option.some.injEq] at h
    obtain ⟨⟨hpc, -⟩, rfl⟩ := h
    exact ⟨rfl, rfl, fun _ => Or.inr rfl, Or.inl (hquiet rfl rfl (by simp [notifying, hpc]))⟩
  case resetEnds | clearPending | clearRunning =>
    split_ifs at h with h1 h2
    · obtain rfl := Option.some.inj h
      refine ⟨rfl, rfl, fun _ => Or.inl ?_, Or.inr ?_⟩ <;> rw [h1] <;> rfl
    · rw [h2] at hstops
      contradiction
  case clearConnected =>
    split_ifs at h with h1
    obtain rfl := Option.some.inj h
    refine ⟨rfl, rfl, fun _ => Or.inl ?_, Or.inr ?_⟩ <;> rw [h1] <;> rfl
  all_goals
    simp only [Option.ite_none_right_eq_some] at h
    rw [h.1] at hstops
    contradiction

end AebNode.TcpServer
