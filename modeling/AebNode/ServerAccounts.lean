import AebNode.ServerCounters

/-! Where published frames end up. Every frame is counted as sent or dropped, waits in the
queue, is in transmission, or was let go without being counted: the account of these is exact
over every run, so the counters tell the truth exactly as long as no step lets a frame go. -/
namespace AebNode.TcpServer
open LittleEndian Machine Protocol

variable {ι : Type*}

/-- The frames a call of `publish` has taken on or evicted and not yet counted or queued. -/
def PublishCall.owed (call : PublishCall) : ℕ :=
  match call.pc with
  | .loadConnected | .loadRunning | .discard | .push => 1
  | .addDropped => call.dropped
  | .idle | .signal => 0

def inTransmission (s : TcpServer ι) : ℕ :=
  if s.session.sendOffset < s.session.sendBuffer.length then 1 else 0

/-- The frames a step lets go without counting them: those a clear finds in the queue, the one
a closed session had in transmission, and what a failing push had evicted and was to queue. -/
def leaks (s : TcpServer ι) : Action ι → List Frame
  | .publish p .pushThrows =>
    s.queue.queue.take (s.queue.queue.length + 1 - s.queue.capacity) ++ [(s.calls p).frame]
  | .io .clearForSession | .io .exitClear => s.queue.queue
  | .io .service => if s.session.valid then [] else s.queue.queue
  | .io .closeSession =>
    if s.session.sendOffset < s.session.sendBuffer.length then [s.session.staging] else []
  | _ => []

/-- The frames on the books, apart from those in the hands of publishers. -/
def onBooks (s : TcpServer ι) : ℕ :=
  s.stats.framesSent + s.unreportedFrames + s.stats.framesDropped + s.queue.size +
    s.inTransmission

theorem onBooks_of_same {s t : TcpServer ι} (hqueue : t.queue = s.queue)
    (hsession : t.session = s.session) (hsent : t.stats.framesSent = s.stats.framesSent)
    (hdropped : t.stats.framesDropped = s.stats.framesDropped)
    (hunreported : t.unreportedFrames = s.unreportedFrames) : t.onBooks = s.onBooks := by
  simp only [onBooks, inTransmission, hqueue, hsession, hsent, hdropped, hunreported]

theorem unreported_of_quiet {s t : TcpServer ι} {pc pc' : IoPc} (hpc : s.io.pc = pc)
    (hpc' : t.io.pc = pc') (hbefore : pc.pumps = false) (hafter : pc'.pumps = false) :
    t.unreportedFrames = s.unreportedFrames := by
  rw [unreportedFrames, unreportedFrames, hpc, hpc', hbefore, hafter]
  rfl

theorem polling_onBooks {s t : TcpServer ι} {event : IoEvent}
    (hphase : event.phase = .polling) (h : s.ioStep event = some t) :
    t.onBooks + (leaks s (.io event)).length = s.onBooks ∧
      t.stats.framesPublished = s.stats.framesPublished := by
  cases event <;> simp only [IoEvent.phase, reduceCtorEq] at hphase <;>
    simp only [ioStep, Option.ite_none_right_eq_some, Option.some.injEq,
      Option.map_eq_some_iff] at h
  case loadStop =>
    obtain ⟨hpc, rfl⟩ := h
    refine ⟨onBooks_of_same rfl rfl rfl rfl (unreported_of_quiet hpc rfl rfl ?_), rfl⟩
    cases s.stopRequested <;> rfl
  case pollFails interrupted =>
    obtain ⟨hpc, rfl⟩ := h
    refine ⟨onBooks_of_same rfl rfl rfl rfl (unreported_of_quiet hpc rfl rfl ?_), rfl⟩
    cases interrupted <;> rfl
  case pollReturns wake listen events =>
    obtain ⟨⟨hpc, -⟩, rfl⟩ := h
    refine ⟨onBooks_of_same rfl rfl rfl rfl (unreported_of_quiet hpc rfl rfl ?_), rfl⟩
    cases wake <;> rfl
  case drain event =>
    obtain ⟨hpc, ⟨_, next⟩, -, rfl⟩ := h
    refine ⟨onBooks_of_same rfl rfl rfl rfl (unreported_of_quiet hpc rfl rfl ?_), rfl⟩
    cases next <;> simp [hpc]
  case clientEvents =>
    obtain ⟨hpc, rfl⟩ := h
    refine ⟨onBooks_of_same rfl rfl rfl rfl (unreported_of_quiet hpc rfl rfl ?_), rfl⟩
    dsimp only
    split_ifs <;> rfl
  case recv result =>
    obtain ⟨hpc, rfl⟩ := h
    refine ⟨onBooks_of_same rfl rfl rfl rfl (unreported_of_quiet hpc rfl rfl ?_), rfl⟩
    cases result <;> simp [hpc, callEndSession]
  case listenEvents =>
    obtain ⟨hpc, rfl⟩ := h
    refine ⟨onBooks_of_same rfl rfl rfl rfl (unreported_of_quiet hpc rfl rfl ?_), rfl⟩
    cases s.io.listenReady <;> rfl
  all_goals
    obtain ⟨hpc, rfl⟩ := h
    exact ⟨onBooks_of_same rfl rfl rfl rfl (unreported_of_quiet hpc rfl rfl rfl), rfl⟩

theorem accepting_onBooks {s t : TcpServer ι} {event : IoEvent} (hseated : Seated s)
    (hphase : event.phase = .accepting) (h : s.ioStep event = some t) :
    t.onBooks + (leaks s (.io event)).length = s.onBooks ∧
      t.stats.framesPublished = s.stats.framesPublished := by
  cases event <;> simp only [IoEvent.phase, reduceCtorEq] at hphase <;>
    simp only [ioStep, Option.ite_none_right_eq_some, Option.some.injEq] at h
  case accept result =>
    obtain ⟨hpc, h⟩ := h
    cases result <;> obtain rfl := Option.some.inj h <;>
      refine ⟨onBooks_of_same rfl rfl rfl rfl (unreported_of_quiet hpc rfl rfl ?_), rfl⟩
    case connected =>
      dsimp only
      split_ifs <;> rfl
    all_goals simp [hpc]
  case install =>
    obtain ⟨hpc, rfl⟩ := h
    have hempty := hseated.emptied (hseated.detached (by simp [hpc]))
    simp [onBooks, unreportedFrames, inTransmission, leaks, hpc, hempty]
  case clearForSession =>
    obtain ⟨hpc, rfl⟩ := h
    simp [onBooks, unreportedFrames, inTransmission, leaks, hpc, FrameQueue.size,
      FrameQueue.clear_queue]
    omega
  all_goals
    obtain ⟨hpc, rfl⟩ := h
    exact ⟨onBooks_of_same rfl rfl rfl rfl (unreported_of_quiet hpc rfl rfl rfl), rfl⟩

theorem output_onBooks {s t : TcpServer ι} {event : IoEvent} (hseated : Seated s)
    (hphase : event.phase = .output) (h : s.ioStep event = some t) :
    t.onBooks + (leaks s (.io event)).length = s.onBooks ∧
      t.stats.framesPublished = s.stats.framesPublished := by
  cases event <;> simp only [IoEvent.phase, reduceCtorEq] at hphase <;>
    simp only [ioStep, Option.ite_none_right_eq_some, Option.some.injEq] at h
  case service =>
    obtain ⟨hpc, rfl⟩ := h
    split_ifs with hvalid
    · simp [onBooks, unreportedFrames, inTransmission, leaks, hpc, hvalid]
    · simp [onBooks, unreportedFrames, inTransmission, leaks, hpc, hvalid, FrameQueue.size,
        FrameQueue.clear_queue]
      omega
  case pump =>
    obtain ⟨hpc, h⟩ := h
    split_ifs at h with hinvalid hoffset hpopped <;> obtain rfl := Option.some.inj h
    · simp [onBooks, unreportedFrames, inTransmission, leaks, hpc]
    · simp [onBooks, unreportedFrames, inTransmission, leaks, hpc]
    · cases hqueue : s.queue.queue with
      | nil => simp [FrameQueue.pop_nil hqueue] at hpopped
      | cons front rest =>
        have hlength := encodedSize_ge front
        have hpos : 0 < encodedSize front := by omega
        simp [onBooks, unreportedFrames, inTransmission, leaks, hpc, hoffset, encode_length, hpos,
          FrameQueue.pop_cons hqueue, FrameQueue.size, hqueue]
        omega
    · cases hqueue : s.queue.queue with
      | nil => simp [onBooks, unreportedFrames, inTransmission, leaks, hpc]
      | cons front rest => simp [FrameQueue.pop_cons hqueue] at hpopped
  case send result =>
    obtain ⟨hpc, h⟩ := h
    have hsending := hseated.sending hpc
    cases result <;> simp only [Option.ite_none_right_eq_some, Option.some.injEq] at h
    case written n =>
      obtain ⟨-, rfl⟩ := h
      simp only [onBooks, unreportedFrames, inTransmission, leaks, hpc, hsending, IoPc.pumps,
        if_true, List.length_nil, add_zero, and_true]
      split_ifs <;> omega
    all_goals
      subst h
      simp [onBooks, unreportedFrames, inTransmission, leaks, hpc]
  case countProgress =>
    obtain ⟨hpc, rfl⟩ := h
    cases s.io.failed <;>
      simp [onBooks, unreportedFrames, inTransmission, leaks, hpc, callEndSession]

theorem ending_onBooks {s t : TcpServer ι} {event : IoEvent} (hseated : Seated s)
    (hphase : event.phase = .ending) (h : s.ioStep event = some t) :
    t.onBooks + (leaks s (.io event)).length = s.onBooks ∧
      t.stats.framesPublished = s.stats.framesPublished := by
  cases event <;> simp only [IoEvent.phase, reduceCtorEq] at hphase <;>
    simp only [ioStep, Option.ite_none_right_eq_some, Option.some.injEq] at h
  case exitClear =>
    obtain ⟨hpc, rfl⟩ := h
    simp [onBooks, unreportedFrames, inTransmission, leaks, hpc, FrameQueue.size,
      FrameQueue.clear_queue]
    omega
  case closeSession =>
    obtain ⟨hpc, rfl⟩ := h
    obtain ⟨-, -, hpumps⟩ := IoPc.awaitsEndSession_settled hseated.returnTo
    split_ifs with hvalid
    · by_cases hpart : s.session.sendOffset < s.session.sendBuffer.length <;>
        simp [onBooks, unreportedFrames, inTransmission, leaks, hpc, ClientSession.close, hpart]
    · have hempty := hseated.emptied (by simpa using hvalid)
      have hnone : leaks s (.io .closeSession) = [] := by simp [leaks, hempty]
      rw [hnone]
      exact ⟨onBooks_of_same rfl rfl rfl rfl (unreported_of_quiet hpc rfl rfl hpumps), rfl⟩
  case countDisconnect =>
    obtain ⟨hpc, rfl⟩ := h
    obtain ⟨-, -, hpumps⟩ := IoPc.awaitsEndSession_settled hseated.returnTo
    exact ⟨onBooks_of_same rfl rfl rfl rfl (unreported_of_quiet hpc rfl rfl hpumps), rfl⟩
  all_goals
    obtain ⟨hpc, rfl⟩ := h
    exact ⟨onBooks_of_same rfl rfl rfl rfl (unreported_of_quiet hpc rfl rfl rfl), rfl⟩

theorem ioStep_onBooks {s t : TcpServer ι} {event : IoEvent} (hseated : Seated s)
    (h : s.ioStep event = some t) :
    t.onBooks + (leaks s (.io event)).length = s.onBooks ∧
      t.stats.framesPublished = s.stats.framesPublished := by
  cases hphase : event.phase with
  | polling => exact polling_onBooks hphase h
  | accepting => exact accepting_onBooks hseated hphase h
  | output => exact output_onBooks hseated hphase h
  | ending => exact ending_onBooks hseated hphase h

variable [DecidableEq ι]

/-- What a publisher's step does to its own call, the drops, the queue and the frames published. -/
theorem publishStep_moves {s t : TcpServer ι} {p : ι} {event : PublishEvent}
    (hcapacity : 0 < s.queue.capacity) (h : s.publishStep p event = some t) :
    ∃ call, t.calls = Function.update s.calls p call ∧
      t.stats.framesSent = s.stats.framesSent ∧
      t.stats.framesPublished + (s.calls p).owed + (s.stats.framesDropped + s.queue.size) =
        s.stats.framesPublished + call.owed + (t.stats.framesDropped + t.queue.size) +
          (leaks s (.publish p event)).length := by
  cases event <;> simp only [publishStep, Option.ite_none_right_eq_some, Option.some.injEq,
    Option.map_eq_some_iff] at h
  case call frame =>
    obtain ⟨hpc, rfl⟩ := h
    refine ⟨_, rfl, rfl, ?_⟩
    simp only [PublishCall.owed, hpc, leaks, List.length_nil, setCall]
    omega
  case loadConnected =>
    obtain ⟨hpc, rfl⟩ := h
    refine ⟨_, rfl, rfl, ?_⟩
    cases s.clientConnected <;> simp [PublishCall.owed, hpc, leaks, setCall]
  case loadRunning =>
    obtain ⟨hpc, rfl⟩ := h
    refine ⟨_, rfl, rfl, ?_⟩
    cases s.running <;> simp [PublishCall.owed, hpc, leaks, setCall]
  case discard =>
    obtain ⟨hpc, rfl⟩ := h
    refine ⟨_, rfl, rfl, ?_⟩
    simp only [PublishCall.owed, hpc, leaks, List.length_nil, setCall]
    omega
  case push =>
    obtain ⟨hpc, rfl⟩ := h
    refine ⟨_, rfl, rfl, ?_⟩
    have hqueue := FrameQueue.push_queue s.queue hcapacity (s.calls p).frame
    have hevicted := FrameQueue.push_evicted s.queue hcapacity (s.calls p).frame
    have hconserves := BoundedFifo.push_conserves hcapacity s.queue.queue (s.calls p).frame
    have howed : PublishCall.owed { s.calls p with
        pc := if (s.queue.push (s.calls p).frame).2 ≠ 0 then .addDropped else .signal
        dropped := (s.queue.push (s.calls p).frame).2
        signal := .check } = (s.queue.push (s.calls p).frame).2 := by
      by_cases hnone : (s.queue.push (s.calls p).frame).2 = 0 <;> simp [PublishCall.owed, hnone]
    rw [howed]
    simp only [PublishCall.owed, hpc, leaks, setCall, FrameQueue.size, hqueue, hevicted,
      List.length_nil]
    omega
  case pushThrows =>
    obtain ⟨hpc, rfl⟩ := h
    refine ⟨_, rfl, rfl, ?_⟩
    have hqueue := FrameQueue.pushThrows_queue s.queue hcapacity
    simp only [PublishCall.owed, hpc, leaks, setCall, FrameQueue.size, hqueue, List.length_append,
      List.length_take, List.length_drop, List.length_singleton]
    omega
  case addDropped =>
    obtain ⟨hpc, rfl⟩ := h
    refine ⟨_, rfl, rfl, ?_⟩
    simp only [PublishCall.owed, hpc, leaks, List.length_nil, setCall]
    omega
  case signal event =>
    obtain ⟨hpc, ⟨_, next⟩, -, rfl⟩ := h
    refine ⟨_, rfl, rfl, ?_⟩
    cases next <;> simp [PublishCall.owed, hpc, leaks, setCall]

/-- The account: all frames published are on the books, owed by one of finitely many callers,
or leaked. -/
structure Accounted (w : List Frame) (s : TcpServer ι) : Prop where
  capacity_pos : 0 < s.queue.capacity
  balance : ∃ callers : Finset ι, (∀ p ∉ callers, (s.calls p).pc = .idle) ∧
    s.stats.framesPublished = s.onBooks + ∑ p ∈ callers, (s.calls p).owed + w.length

omit [DecidableEq ι] in
theorem new_accounted (capacity : ℕ) : Accounted [] (new capacity : TcpServer ι) := by
  refine ⟨?_, ∅, fun _ _ => rfl, rfl⟩
  simp only [new, FrameQueue.new]
  split_ifs <;> omega

theorem step_accounted {s t : TcpServer ι} {a : Action ι} {w : List Frame} (hlife : Lifecycle s)
    (hseated : Seated s)
    (hs : Accounted w s) (h : s.step a = some t) : Accounted (w ++ leaks s a) t := by
  obtain ⟨callers, hidle, hbalance⟩ := hs.balance
  refine ⟨step_capacity h ▸ hs.capacity_pos, ?_⟩
  simp only [step, Option.ite_none_left_eq_some] at h
  obtain ⟨-, h⟩ := h
  cases a with
  | owner event =>
    obtain ⟨hqueue, hsession, -, hcalls, hio⟩ := ownerStep_frame h
    have hstats := (ownerStep_flags h).1
    have hunreported : t.unreportedFrames = s.unreportedFrames := by
      rcases hio with hio | ⟨hio, hunjoined, -⟩
      · rw [unreportedFrames, unreportedFrames, hio]
      · rw [unreportedFrames, unreportedFrames, hio, hlife.exited_of_unjoinable hunjoined]
        rfl
    refine ⟨callers, hcalls ▸ hidle, ?_⟩
    rw [onBooks_of_same hqueue hsession (by rw [hstats]) (by rw [hstats]) hunreported, hstats,
      hcalls, hbalance, show leaks s (.owner event) = [] from rfl, List.append_nil]
  | io event =>
    obtain ⟨hcalls, -⟩ := ioStep_threads h
    obtain ⟨hbooks, hpublished⟩ := ioStep_onBooks hseated h
    refine ⟨callers, hcalls ▸ hidle, ?_⟩
    rw [hpublished, hbalance, hcalls, List.length_append]
    omega
  | publish p event =>
    obtain ⟨call, hcalls, hsent, hmoves⟩ := publishStep_moves hs.capacity_pos h
    obtain ⟨hsession, -, hio, -⟩ := publishStep_frame h
    have hunreported : t.unreportedFrames = s.unreportedFrames := by
      rw [unreportedFrames, unreportedFrames, hio]
    have hholds : t.inTransmission = s.inTransmission := by
      rw [inTransmission, inTransmission, hsession]
    refine ⟨insert p callers, fun q hq => ?_, ?_⟩
    · obtain ⟨hne, hout⟩ := not_or.mp (Finset.mem_insert.not.mp hq)
      rw [hcalls, Function.update_of_ne hne]
      exact hidle q hout
    · have hbefore : ∑ q ∈ callers, (s.calls q).owed =
          (s.calls p).owed + ∑ q ∈ callers.erase p, (s.calls q).owed := by
        by_cases hp : p ∈ callers
        · exact (Finset.add_sum_erase _ _ hp).symm
        · rw [Finset.erase_eq_of_notMem hp, PublishCall.owed, hidle p hp]
          simp
      have hafter : ∑ q ∈ insert p callers, (t.calls q).owed =
          call.owed + ∑ q ∈ callers.erase p, (s.calls q).owed := by
        rw [← Finset.insert_erase (Finset.mem_insert_self p callers), Finset.erase_insert_eq_erase,
          Finset.sum_insert (Finset.notMem_erase p callers), hcalls, Function.update_self]
        congr 1
        refine Finset.sum_congr rfl fun q hq => ?_
        rw [Function.update_of_ne (Finset.ne_of_mem_erase hq)]
      rw [onBooks] at hbalance ⊢
      rw [hafter, List.length_append, hsent, hunreported, hholds]
      omega

/-- No call of `publish` is under way, and the I/O thread is at the head of its loop or gone. -/
def Quiet (s : TcpServer ι) : Prop :=
  (∀ p, (s.calls p).pc = .idle) ∧ (s.io.pc = .loopHead ∨ s.io.pc = .exited)

def leakedFrames (capacity : ℕ) (as : List (Action ι)) : List Frame :=
  trace step leaks (new capacity) as

theorem exec_accounted {capacity : ℕ} {as : List (Action ι)} {s : TcpServer ι}
    (h : exec step (new capacity) as = some s) :
    Accounted (leakedFrames capacity as) s := by
  have hkeep : ∀ w (s : TcpServer ι) a t, (Lifecycle s ∧ Seated s ∧ ∃ v, Counted v s) ∧
      Accounted w s → s.step a = some t →
      (Lifecycle t ∧ Seated t ∧ ∃ v, Counted v t) ∧ Accounted (w ++ leaks s a) t := by
    rintro w s a t ⟨⟨hlife, hseated, v, hcounted⟩, hs⟩ hstep
    obtain ⟨hlife', hseated', hcounted'⟩ := step_counted ⟨hlife, hseated, hcounted⟩ hstep
    exact ⟨⟨hlife', hseated', _, hcounted'⟩, step_accounted hlife hseated hs hstep⟩
  exact (exec_trace_invariant hkeep ⟨⟨new_lifecycle capacity, new_seated capacity, [],
    new_counted capacity⟩, new_accounted capacity⟩ h).2

/-- The exact account, over every run. -/
theorem account (capacity : ℕ) {as : List (Action ι)} {s : TcpServer ι}
    (h : exec step (new capacity) as = some s) (hquiet : Quiet s) :
    s.stats.framesPublished = s.stats.framesSent + s.stats.framesDropped + s.queue.size +
      s.inTransmission + (leakedFrames capacity as).length := by
  obtain ⟨hidle, hplace⟩ := hquiet
  obtain ⟨callers, -, hbalance⟩ := (exec_accounted h).balance
  have howed : ∑ p ∈ callers, (s.calls p).owed = 0 := by
    refine Finset.sum_eq_zero fun p _ => ?_
    rw [PublishCall.owed, hidle p]
  have hunreported : s.unreportedFrames = 0 := by
    rcases hplace with hpc | hpc <;> simp [unreportedFrames, hpc]
  rw [hbalance, onBooks, howed, hunreported]
  omega

/-- The statistics account for every published frame, in the quiet states of every run, exactly
if no step of the run lets a frame go uncounted. -/
theorem frames_accounted_iff (capacity : ℕ) {as : List (Action ι)} {s : TcpServer ι}
    (h : exec step (new capacity) as = some s) (hquiet : Quiet s) :
    s.stats.framesPublished = s.stats.framesSent + s.stats.framesDropped + s.queue.size +
        s.inTransmission ↔
      Along (fun s a => leaks s a = []) step (new capacity) as := by
  rw [← trace_eq_nil_iff h, ← leakedFrames, account capacity h hquiet,
    ← List.length_eq_zero_iff]
  omega

omit [DecidableEq ι] in
theorem ioStep_counts {s t : TcpServer ι} {event : IoEvent} (h : s.ioStep event = some t) :
    t.stats.clientConnects ≤ s.stats.clientConnects + 1 ∧
      t.stats.framesPublished = s.stats.framesPublished := by
  cases event <;> simp only [ioStep, Option.ite_none_right_eq_some, Option.some.injEq,
    Option.map_eq_some_iff] at h <;> grind

theorem publishStep_counts {s t : TcpServer ι} {p : ι} {event : PublishEvent}
    (h : s.publishStep p event = some t) :
    t.stats.clientConnects = s.stats.clientConnects ∧
      t.stats.framesPublished ≤ s.stats.framesPublished + 1 := by
  cases event <;> simp only [publishStep, Option.ite_none_right_eq_some, Option.some.injEq,
    Option.map_eq_some_iff] at h <;> grind [setCall]

theorem step_counts {s t : TcpServer ι} {a : Action ι} (h : s.step a = some t) :
    t.stats.clientConnects ≤ s.stats.clientConnects + 1 ∧
      t.stats.framesPublished ≤ s.stats.framesPublished + 1 := by
  simp only [step, Option.ite_none_left_eq_some] at h
  cases a with
  | owner event =>
    rw [(ownerStep_flags h.2).1]
    exact ⟨Nat.le_succ _, Nat.le_succ _⟩
  | io event =>
    obtain ⟨hconnects, hpublished⟩ := ioStep_counts h.2
    exact ⟨hconnects, hpublished.le.trans (Nat.le_succ _)⟩
  | publish p event =>
    obtain ⟨hconnects, hpublished⟩ := publishStep_counts h.2
    exact ⟨hconnects.le.trans (Nat.le_succ _), hpublished⟩

/-- The counters of a run are bounded by its steps and by the bytes that its sockets have taken, so
those of the source, which are 64 bits wide, do not wrap below 2 ^ 64 of these. -/
theorem stats_bounded {capacity : ℕ} {as : List (Action ι)} {s : TcpServer ι}
    (h : exec step (new capacity) as = some s) :
    s.stats.framesSent + s.stats.framesDropped ≤ s.stats.framesPublished ∧
      s.stats.framesPublished ≤ as.length ∧
      s.stats.sendErrors ≤ s.stats.clientDisconnects ∧
      s.stats.clientDisconnects ≤ s.stats.clientConnects ∧
      s.stats.clientConnects ≤ as.length ∧ s.stats.bytesSent ≤ s.acceptedBytes := by
  obtain ⟨-, hseated, hs⟩ := exec_counted h
  obtain ⟨callers, -, hbalance⟩ := (exec_accounted h).balance
  have hcalls : s.stats.framesPublished ≤ 0 + as.length :=
    @exec_le_length _ _ _ (fun s : TcpServer ι => s.stats.framesPublished)
      (fun _ _ _ ht => (step_counts ht).2) _ _ _ h
  have hclients : s.stats.clientConnects ≤ 0 + as.length :=
    @exec_le_length _ _ _ (fun s : TcpServer ι => s.stats.clientConnects)
      (fun _ _ _ ht => (step_counts ht).1) _ _ _ h
  have hconnects := hs.connects
  have hstarting : s.io.pc.starting = true → s.session.valid = true := fun hstarts =>
    hseated.attached (by cases hpc : s.io.pc <;> simp [hpc] at hstarts ⊢)
  refine ⟨?_, by simpa using hcalls, hs.errors, ?_, by simpa using hclients, ?_⟩
  · rw [hbalance, onBooks]
    omega
  · cases hstarts : s.io.pc.starting with
    | false =>
      rw [hstarts] at hconnects
      simp only [Bool.toNat_false] at hconnects
      omega
    | true =>
      rw [hstarts, hstarting hstarts] at hconnects
      omega
  · rw [hs.bytes]
    exact Nat.le_add_right _ _

def hangUpActions (frame : Frame) : List (Action Unit) :=
  startActions ++ acceptActions ++ publishActions () frame ++
  ([.io (.pollReturns true false { hangUp := true }), .io (.drain (.got 1)),
    .io (.drain .wouldBlock), .io (.drain .proceed), .io .clientEvents, .io .closeSession,
    .io .clearConnected, .io .countDisconnect, .io .listenEvents, .io .service] :
    List (Action Unit))

/-- The clear that follows counts it neither as sent nor as dropped. -/
theorem hung_up_frame_unaccounted :
    ¬ ∀ (as : List (Action Unit)) s, exec step (new 4) as = some s → Quiet s →
      s.stats.framesPublished = s.stats.framesSent + s.stats.framesDropped + s.queue.size +
        s.inTransmission := by
  intro hclaim
  have hrun : (exec step (new 4) (hangUpActions ⟨7, 9, [⟨1, 2, 3⟩]⟩)).map (fun s =>
      (s.io.pc, (s.calls ()).pc, [s.stats.framesPublished, s.stats.framesSent,
        s.stats.framesDropped, s.queue.size, s.inTransmission])) =
      some (.loopHead, .idle, [1, 0, 0, 0, 0]) := by decide +kernel
  obtain ⟨s, hs, hlast⟩ := Option.map_eq_some_iff.mp hrun
  simp only [Prod.mk.injEq, List.cons.injEq] at hlast
  obtain ⟨hpc, hidle, hpublished, hsent, hdropped, hsize, hpart, -⟩ := hlast
  have hbalance := hclaim _ s hs ⟨fun _ => hidle, Or.inl hpc⟩
  rw [hpublished, hsent, hdropped, hsize, hpart] at hbalance
  cases hbalance

def sentActions : List (Action Unit) :=
  startActions ++ acceptActions ++ publishActions () ⟨7, 9, [⟨1, 2, 3⟩]⟩ ++ wakeActions ++
  ([.io .pump, .io (.send (.written 42)), .io .pump, .io .countProgress] : List (Action Unit))

theorem frames_accounted_sent : ∃ s, exec step (new 4) sentActions = some s ∧
    s.stats.framesPublished = 1 ∧
    s.stats.framesPublished = s.stats.framesSent + s.stats.framesDropped + s.queue.size +
      s.inTransmission := by
  have hrun : (exec step (new 4) sentActions).map (fun s =>
      (s.io.pc, (s.calls ()).pc, s.stats.framesPublished)) =
      some (.loopHead, .idle, 1) := by decide +kernel
  obtain ⟨s, hs, hlast⟩ := Option.map_eq_some_iff.mp hrun
  simp only [Prod.mk.injEq] at hlast
  obtain ⟨hpc, hidle, hpublished⟩ := hlast
  refine ⟨s, hs, hpublished, (frames_accounted_iff 4 hs ⟨fun _ => hidle, Or.inl hpc⟩).mpr ?_⟩
  decide +kernel

end AebNode.TcpServer
