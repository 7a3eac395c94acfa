import AebNode.ServerHistory

/-! What reaches the client sockets: in each session a prefix of the concatenated encodings of
the frames popped for it, which are taken from the queue in order and never twice. -/
namespace AebNode.TcpServer
open LittleEndian Machine Protocol

variable {ι : Type*}

/-- The packets of the frames popped for session `k`. -/
def stream (h : History ι) (k : ℕ) : Bytes :=
  (h.popped.filter fun e => e.1 = k).flatMap fun e => encode e.2.frame

def PublishPc.beforePush : PublishPc → Bool
  | .loadConnected | .loadRunning | .push => true
  | _ => false

/-- Every entry comes from a call of its own, with that call's argument. -/
structure CallInvariant (s : TcpServer ι) (h : History ι) : Prop where
  frame : ∀ p, (s.calls p).pc.beforePush = true → (s.calls p).frame = (h.running p).frame
  number : ∀ p, (s.calls p).pc.beforePush = true →
    h.called[(h.running p).call]? = some (h.running p).frame
  distinct : ∀ p q, (s.calls p).pc.beforePush = true → (s.calls q).pc.beforePush = true →
    (h.running p).call = (h.running q).call → p = q
  fresh : ∀ p, (s.calls p).pc.beforePush = true →
    ∀ e ∈ h.entered, e.call ≠ (h.running p).call
  entered : ∀ e ∈ h.entered, h.called[e.call]? = some e.frame
  nodup : (h.entered.map Entry.call).Nodup

/-- The queue holds the recorded entries, popping keeps their order, and each socket has
accepted a prefix of its stream; for the current session the rest is the unsent buffer. -/
structure StreamInvariant (s : TcpServer ι) (h : History ι) : Prop where
  capacity_pos : 0 < s.queue.capacity
  queued : s.queue.queue = h.queued.map Entry.frame
  order : (h.popped.map Prod.snd ++ h.queued).Sublist h.entered
  sessions : ∀ e ∈ h.popped, e.1 < s.connections.length
  sent : ∀ k bytes, s.connections[k]? = some bytes → bytes <+: stream h k
  current : ∀ k, s.session.socket = some k →
    ∃ bytes, s.connections[k]? = some bytes ∧ bytes ++ s.session.unsent = stream h k
  adopted : ∀ k, s.io.accepted = some k → s.connections[k]? = some [] ∧
    s.session.socket ≠ some k ∧ ∀ e ∈ h.popped, e.1 ≠ k

theorem StreamInvariant.frame {s t : TcpServer ι} {h : History ι} (inv : StreamInvariant s h)
    (hqueue : t.queue = s.queue) (hsession : t.session = s.session)
    (hconnections : t.connections = s.connections) (haccepted : t.io.accepted = s.io.accepted) :
    StreamInvariant t h where
  capacity_pos := hqueue ▸ inv.capacity_pos
  queued := hqueue ▸ inv.queued
  order := inv.order
  sessions := hconnections ▸ inv.sessions
  sent := hconnections ▸ inv.sent
  current := by
    rw [hsession, hconnections]
    exact inv.current
  adopted := by
    rw [hsession, hconnections, haccepted]
    exact inv.adopted

theorem stream_append (h : History ι) (k j : ℕ) (e : Entry) (rest : List Entry) :
    stream { h with queued := rest, popped := h.popped ++ [(j, e)] } k =
      stream h k ++ if j = k then encode e.frame else [] := by
  by_cases hj : j = k <;> simp [stream, List.filter_append, hj]

theorem StreamInvariant.cleared {s t : TcpServer ι} {h : History ι} (inv : StreamInvariant s h)
    (hqueue : t.queue = s.queue.clear) (hsession : t.session = s.session)
    (hconnections : t.connections = s.connections) (haccepted : t.io.accepted = s.io.accepted) :
    StreamInvariant t { h with queued := [] } where
  capacity_pos := by
    rw [hqueue, FrameQueue.clear_capacity]
    exact inv.capacity_pos
  queued := by
    rw [hqueue]
    rfl
  order := by
    rw [List.append_nil]
    exact (List.sublist_append_left _ _).trans inv.order
  sessions := hconnections ▸ inv.sessions
  sent := hconnections ▸ inv.sent
  current := by
    rw [hsession, hconnections]
    exact inv.current
  adopted := by
    rw [hsession, hconnections, haccepted]
    exact inv.adopted

/-- A frame leaves the queue for the send buffer of the current session. -/
theorem StreamInvariant.popped {s : TcpServer ι} {h : History ι} (inv : StreamInvariant s h)
    {k : ℕ} {e : Entry} {rest : List Entry} {queue : FrameQueue FloatBits}
    {session : ClientSession} {io : IoThread} (hk : s.session.socket = some k)
    (hdone : s.session.unsent = []) (hqueued : h.queued = e :: rest)
    (hcapacity : queue.capacity = s.queue.capacity) (hqueue : queue.queue = rest.map Entry.frame)
    (hsocket : session.socket = some k) (hunsent : session.unsent = encode e.frame)
    (haccepted : io.accepted = s.io.accepted) :
    StreamInvariant { s with queue := queue, session := session, io := io }
      { h with queued := rest, popped := h.popped ++ [(k, e)] } where
  capacity_pos := hcapacity ▸ inv.capacity_pos
  queued := hqueue
  order := by
    have horder := inv.order
    rw [hqueued] at horder
    simpa using horder
  sessions := by
    obtain ⟨bytes, hbytes, -⟩ := inv.current k hk
    have hlt := (List.getElem?_eq_some_iff.mp hbytes).1
    intro x hx
    rcases List.mem_append.mp hx with hx | hx
    · exact inv.sessions x hx
    · obtain rfl := List.mem_singleton.mp hx
      exact hlt
  sent := by
    intro j bytes hbytes
    rw [stream_append]
    exact (inv.sent j bytes hbytes).trans (List.prefix_append _ _)
  current := by
    intro j hj
    obtain rfl : k = j := Option.some.inj (hsocket.symm.trans hj)
    obtain ⟨bytes, hbytes, hstream⟩ := inv.current k hk
    rw [hdone, List.append_nil] at hstream
    refine ⟨bytes, hbytes, ?_⟩
    rw [stream_append, if_pos rfl, ← hstream]
    exact congrArg (bytes ++ ·) hunsent
  adopted := by
    intro j hj
    obtain ⟨hbytes, hne, hpopped⟩ := inv.adopted j (haccepted ▸ hj)
    refine ⟨hbytes, fun hs => hne (hk.trans (hsocket.symm.trans hs)), ?_⟩
    intro x hx
    rcases List.mem_append.mp hx with hx | hx
    · exact hpopped x hx
    · obtain rfl := List.mem_singleton.mp hx
      rintro rfl
      exact hne hk

theorem StreamInvariant.written {s : TcpServer ι} {h : History ι} (inv : StreamInvariant s h)
    {k n : ℕ} {session : ClientSession} {io : IoThread} (hk : s.session.socket = some k)
    (hsocket : session.socket = some k) (hunsent : session.unsent = s.session.unsent.drop n)
    (haccepted : io.accepted = s.io.accepted) :
    StreamInvariant { s with
      session := session
      connections := s.connections.modify k (· ++ s.session.unsent.take n)
      io := io } h where
  capacity_pos := inv.capacity_pos
  queued := inv.queued
  order := inv.order
  sessions := by
    simp only [List.length_modify]
    exact inv.sessions
  sent := by
    obtain ⟨bytes, hbytes, hstream⟩ := inv.current k hk
    intro j taken hj
    by_cases hkj : k = j
    · subst hkj
      simp only [List.getElem?_modify_eq, hbytes, Option.map_eq_map, Option.map_some,
        Option.some.injEq] at hj
      subst hj
      rw [← hstream]
      exact List.prefix_append_right_inj _ |>.mpr (List.take_prefix _ _)
    · have hsame : s.connections[j]? = some taken := by simpa [hkj] using hj
      exact inv.sent j taken hsame
  current := by
    intro j hj
    obtain rfl : k = j := Option.some.inj (hsocket.symm.trans hj)
    obtain ⟨bytes, hbytes, hstream⟩ := inv.current k hk
    refine ⟨bytes ++ s.session.unsent.take n, by simp [hbytes], ?_⟩
    rw [hunsent, List.append_assoc, List.take_append_drop, hstream]
  adopted := by
    intro j hj
    obtain ⟨hbytes, hne, hpopped⟩ := inv.adopted j (haccepted ▸ hj)
    have hkj : k ≠ j := fun hkj => hne (hkj ▸ hk)
    exact ⟨by simp [hkj, hbytes], fun hs => hne (hk.trans (hsocket.symm.trans hs)), hpopped⟩

theorem StreamInvariant.connected {s : TcpServer ι} {h : History ι} (inv : StreamInvariant s h)
    {io : IoThread} (haccepted : io.accepted = some s.connections.length) :
    StreamInvariant { s with connections := s.connections ++ [[]], io := io } h where
  capacity_pos := inv.capacity_pos
  queued := inv.queued
  order := inv.order
  sessions := by
    intro e he
    have := inv.sessions e he
    simp only [List.length_append, List.length_singleton]
    omega
  sent := by
    intro k bytes hk
    by_cases hlt : k < s.connections.length
    · rw [List.getElem?_append_left hlt] at hk
      exact inv.sent k bytes hk
    · have hempty : bytes ∈ [([] : Bytes)] := by
        rw [List.getElem?_append_right (by omega)] at hk
        exact List.mem_of_getElem? hk
      obtain rfl := List.mem_singleton.mp hempty
      exact List.nil_prefix
  current := by
    intro k hk
    obtain ⟨bytes, hbytes, hstream⟩ := inv.current k hk
    have hlt := (List.getElem?_eq_some_iff.mp hbytes).1
    exact ⟨bytes, by rw [List.getElem?_append_left hlt, hbytes], hstream⟩
  adopted := by
    intro k hk
    obtain rfl : s.connections.length = k := Option.some.inj (haccepted.symm.trans hk)
    refine ⟨by simp, ?_, ?_⟩
    · intro hs
      obtain ⟨bytes, hbytes, -⟩ := inv.current _ hs
      have := (List.getElem?_eq_some_iff.mp hbytes).1
      omega
    · intro e he hke
      have := inv.sessions e he
      omega

theorem StreamInvariant.installed {s : TcpServer ι} {h : History ι} (inv : StreamInvariant s h)
    {io : IoThread} (clientConnected : Bool) (haccepted : io.accepted = none) :
    StreamInvariant { s with
      session := { socket := s.io.accepted }
      clientConnected := clientConnected
      io := io } h where
  capacity_pos := inv.capacity_pos
  queued := inv.queued
  order := inv.order
  sessions := inv.sessions
  sent := inv.sent
  current := by
    intro k hk
    obtain ⟨hbytes, -, hpopped⟩ := inv.adopted k hk
    have hnone : h.popped.filter (fun e => e.1 = k) = [] := by
      rw [List.filter_eq_nil_iff]
      intro e he
      simpa using hpopped e he
    exact ⟨[], hbytes, by simp [ClientSession.unsent, stream, hnone]⟩
  adopted := by
    intro k hk
    simp [haccepted] at hk

theorem StreamInvariant.closed {s : TcpServer ι} {h : History ι} (inv : StreamInvariant s h)
    {session : ClientSession} {io : IoThread} (hsocket : session.socket = none)
    (haccepted : io.accepted = s.io.accepted) :
    StreamInvariant { s with session := session, io := io } h where
  capacity_pos := inv.capacity_pos
  queued := inv.queued
  order := inv.order
  sessions := inv.sessions
  sent := inv.sent
  current := by
    intro k hk
    simp [hsocket] at hk
  adopted := by
    intro k hk
    obtain ⟨hbytes, -, hpopped⟩ := inv.adopted k (haccepted ▸ hk)
    exact ⟨hbytes, by simp [hsocket], hpopped⟩

theorem pump_stream {s t : TcpServer ι} {h : History ι} (inv : StreamInvariant s h)
    (hstep : s.ioStep .pump = some t) : StreamInvariant t (recordIo s h .pump) := by
  simp only [ioStep, Option.ite_none_right_eq_some] at hstep
  obtain ⟨-, hstep⟩ := hstep
  simp only [recordIo]
  cases hk : s.session.socket with
  | none =>
    rw [if_pos (by simp [ClientSession.valid, hk])] at hstep
    obtain rfl := Option.some.inj hstep
    split_ifs <;> exact inv.frame rfl rfl rfl rfl
  | some k =>
    rw [if_neg (by simp [ClientSession.valid, hk])] at hstep
    by_cases hoffset : s.session.sendOffset < s.session.sendBuffer.length
    · rw [if_pos hoffset] at hstep ⊢
      obtain rfl := Option.some.inj hstep
      exact inv.frame rfl rfl rfl rfl
    · rw [if_neg hoffset] at hstep ⊢
      cases hqueued : h.queued with
      | nil =>
        have hempty : s.queue.queue = [] := by simpa [hqueued] using inv.queued
        simp only [FrameQueue.pop_nil hempty, Bool.false_eq_true, ↓reduceIte,
          Option.some.injEq] at hstep
        subst hstep
        exact inv.frame rfl rfl rfl rfl
      | cons e rest =>
        have hfront : s.queue.queue = e.frame :: rest.map Entry.frame := by
          simpa [hqueued] using inv.queued
        simp only [FrameQueue.pop_cons hfront, ↓reduceIte, Option.some.injEq] at hstep
        subst hstep
        refine inv.popped hk ?_ hqueued (FrameQueue.recycleLocked_capacity _ _) rfl hk rfl rfl
        rw [ClientSession.unsent, List.drop_eq_nil_iff]
        omega

theorem send_stream {s t : TcpServer ι} {h : History ι} {result : SendResult}
    (inv : StreamInvariant s h) (hstep : s.ioStep (.send result) = some t) :
    StreamInvariant t h := by
  simp only [ioStep, Option.ite_none_right_eq_some] at hstep
  obtain ⟨-, hstep⟩ := hstep
  cases result with
  | interrupted =>
    obtain rfl := Option.some.inj hstep
    exact inv.frame rfl rfl rfl rfl
  | wouldBlock =>
    obtain rfl := Option.some.inj hstep
    exact inv.frame rfl rfl rfl rfl
  | failed =>
    obtain rfl := Option.some.inj hstep
    exact inv.frame rfl rfl rfl rfl
  | written n =>
    simp only [Option.ite_none_right_eq_some, Option.some.injEq] at hstep
    obtain ⟨-, rfl⟩ := hstep
    cases hk : s.session.socket with
    | none => exact inv.closed rfl rfl
    | some k => exact inv.written hk rfl (by simp [ClientSession.unsent, List.drop_drop]) rfl

theorem ioStep_stream {s t : TcpServer ι} {h : History ι} {event : IoEvent}
    (inv : StreamInvariant s h) (hstep : s.ioStep event = some t) :
    StreamInvariant t (recordIo s h event) := by
  cases he : event.streams with
  | false =>
    obtain ⟨hqueue, hsession, hconnections, haccepted⟩ := ioStep_frame hstep he
    have hrecord : recordIo s h event = h := by cases event <;> first | rfl | contradiction
    rw [hrecord]
    exact inv.frame hqueue hsession hconnections haccepted
  | true =>
    cases event <;> try contradiction
    case pump => exact pump_stream inv hstep
    case send result => exact send_stream inv hstep
    all_goals
      simp only [ioStep, Option.ite_none_right_eq_some, Option.some.injEq] at hstep
    case accept result =>
      obtain ⟨-, hstep⟩ := hstep
      cases result with
      | interrupted => exact Option.some.inj hstep ▸ inv
      | notNonBlocking => exact Option.some.inj hstep ▸ inv
      | none => exact Option.some.inj hstep ▸ inv.frame rfl rfl rfl rfl
      | connected =>
        obtain rfl := Option.some.inj hstep
        apply inv.connected
        split_ifs <;> rfl
    case install =>
      obtain ⟨-, rfl⟩ := hstep
      exact inv.installed true rfl
    case clearForSession =>
      obtain ⟨-, rfl⟩ := hstep
      exact inv.cleared rfl rfl rfl rfl
    case exitClear =>
      obtain ⟨-, rfl⟩ := hstep
      exact inv.cleared rfl rfl rfl rfl
    case service =>
      obtain ⟨-, rfl⟩ := hstep
      simp only [recordIo]
      cases hv : s.session.valid with
      | true => exact inv.frame rfl rfl rfl rfl
      | false => exact inv.cleared rfl rfl rfl rfl
    case closeSession =>
      obtain ⟨-, rfl⟩ := hstep
      cases hv : s.session.valid with
      | true => exact inv.closed rfl rfl
      | false => exact inv.frame rfl rfl rfl rfl

theorem ownerStep_stream {s t : TcpServer ι} {h : History ι} {event : OwnerEvent}
    (inv : StreamInvariant s h) (hstep : s.ownerStep event = some t) : StreamInvariant t h := by
  obtain ⟨hqueue, hsession, hconnections, -, hio⟩ := ownerStep_frame hstep
  rcases hio with hio | ⟨hio, -, -⟩
  · exact inv.frame hqueue hsession hconnections (congrArg IoThread.accepted hio)
  · exact {
      capacity_pos := hqueue ▸ inv.capacity_pos
      queued := hqueue ▸ inv.queued
      order := inv.order
      sessions := hconnections ▸ inv.sessions
      sent := hconnections ▸ inv.sent
      current := by
        rw [hsession, hconnections]
        exact inv.current
      adopted := fun k hk => by simp [hio] at hk }

variable [DecidableEq ι]

/-- A push adds the entry of its call at the back, whatever it evicts at the front. -/
theorem publishStep_stream {s t : TcpServer ι} {h : History ι} {p : ι} {event : PublishEvent}
    (inv : StreamInvariant s h) (calls : CallInvariant s h)
    (hstep : s.publishStep p event = some t) :
    StreamInvariant t (recordPublish s h p event) := by
  obtain ⟨hsession, hconnections, hio, -⟩ := publishStep_frame hstep
  have hqueue := publishStep_queue hstep
  have hkeep : ∀ g : History ι, g.popped = h.popped → 0 < t.queue.capacity →
      t.queue.queue = g.queued.map Entry.frame →
      (g.popped.map Prod.snd ++ g.queued).Sublist g.entered → StreamInvariant t g := by
    intro g hpopped hcapacity hqueued horder
    have hstream : ∀ k, stream g k = stream h k := by
      intro k
      rw [stream, stream, hpopped]
    exact {
      capacity_pos := hcapacity
      queued := hqueued
      order := horder
      sessions := by
        rw [hpopped, hconnections]
        exact inv.sessions
      sent := fun k => by
        rw [hstream, hconnections]
        exact inv.sent k
      current := fun k => by
        rw [hstream, hsession, hconnections]
        exact inv.current k
      adopted := by
        rw [hpopped, hsession, hconnections, hio]
        exact inv.adopted }
  cases event with
  | push =>
    have hpc : (s.calls p).pc = .push := by
      simp only [publishStep, Option.ite_none_right_eq_some] at hstep
      exact hstep.1
    have hframe := calls.frame p (by rw [hpc]; rfl)
    simp only at hqueue
    refine hkeep _ rfl ?_ ?_ ?_
    · rw [hqueue, FrameQueue.push_capacity]
      exact inv.capacity_pos
    · simp only [recordPublish]
      rw [hqueue, FrameQueue.push_queue _ inv.capacity_pos, inv.queued, hframe]
      exact congrArg Prod.fst (BoundedFifo.push_map _ Entry.frame h.queued (h.running p))
    · have hpush := BoundedFifo.push_sublist s.queue.capacity h.queued (h.running p)
      simp only [recordPublish]
      refine (hpush.append_left (h.popped.map Prod.snd)).trans ?_
      rw [← List.append_assoc]
      exact inv.order.append_right [h.running p]
  | pushThrows =>
    simp only at hqueue
    refine hkeep _ rfl ?_ ?_ ?_
    · rw [hqueue, FrameQueue.pushThrows_capacity]
      exact inv.capacity_pos
    · simp only [recordPublish]
      rw [hqueue, FrameQueue.pushThrows_queue _ inv.capacity_pos, inv.queued, List.length_map,
        List.map_drop]
    · exact ((List.drop_sublist _ _).append_left _).trans inv.order
  | call frame => exact hkeep _ rfl (hqueue ▸ inv.capacity_pos) (hqueue ▸ inv.queued) inv.order
  | loadConnected => exact hkeep _ rfl (hqueue ▸ inv.capacity_pos) (hqueue ▸ inv.queued) inv.order
  | loadRunning => exact hkeep _ rfl (hqueue ▸ inv.capacity_pos) (hqueue ▸ inv.queued) inv.order
  | discard => exact hkeep _ rfl (hqueue ▸ inv.capacity_pos) (hqueue ▸ inv.queued) inv.order
  | addDropped => exact hkeep _ rfl (hqueue ▸ inv.capacity_pos) (hqueue ▸ inv.queued) inv.order
  | signal => exact hkeep _ rfl (hqueue ▸ inv.capacity_pos) (hqueue ▸ inv.queued) inv.order

/-- A publisher's step moves only its own call, and never back before the push. -/
theorem publishStep_calls {s t : TcpServer ι} {p : ι} {event : PublishEvent}
    (hstep : s.publishStep p event = some t) (hcall : ∀ frame, event ≠ .call frame) :
    ∃ call, t.calls = Function.update s.calls p call ∧ (call.pc.beforePush = true →
      (s.calls p).pc.beforePush = true ∧ call.frame = (s.calls p).frame ∧ event ≠ .push) := by
  cases event <;> simp only [publishStep, Option.ite_none_right_eq_some, Option.some.injEq,
    Option.map_eq_some_iff] at hstep
  case call frame => exact absurd rfl (hcall frame)
  case signal =>
    obtain ⟨hpc, ⟨_, next⟩, _, rfl⟩ := hstep
    refine ⟨_, rfl, ?_⟩
    cases next <;> simp [hpc, PublishPc.beforePush]
  all_goals
    obtain ⟨hpc, rfl⟩ := hstep
    refine ⟨_, rfl, ?_⟩
    simp [hpc, PublishPc.beforePush]
  all_goals split_ifs <;> simp

theorem call_callInvariant {s t : TcpServer ι} {h : History ι} {p : ι} {frame : Frame}
    (inv : CallInvariant s h) (hstep : s.publishStep p (.call frame) = some t) :
    CallInvariant t (recordPublish s h p (.call frame)) := by
  simp only [publishStep, Option.ite_none_right_eq_some, Option.some.injEq] at hstep
  obtain ⟨-, rfl⟩ := hstep
  have hlt : ∀ q, (s.calls q).pc.beforePush = true →
      (h.running q).call < h.called.length := fun q hq =>
    (List.getElem?_eq_some_iff.mp (inv.number q hq)).1
  have hkeep : ∀ (n : ℕ) (f : Frame), h.called[n]? = some f →
      (h.called ++ [frame])[n]? = some f := by
    intro n f hn
    rw [List.getElem?_append_left (List.getElem?_eq_some_iff.mp hn).1, hn]
  constructor
  case frame =>
    intro q hq
    by_cases hqp : q = p
    · subst hqp
      simp [setCall, recordPublish]
    · simp only [setCall, recordPublish, Function.update_of_ne hqp] at hq ⊢
      exact inv.frame q hq
  case number =>
    intro q hq
    by_cases hqp : q = p
    · subst hqp
      simp [recordPublish]
    · simp only [setCall, recordPublish, Function.update_of_ne hqp] at hq ⊢
      exact hkeep _ _ (inv.number q hq)
  case distinct =>
    intro q r hq hr heq
    by_cases hqp : q = p <;> by_cases hrp : r = p
    · rw [hqp, hrp]
    · subst hqp
      simp only [setCall, recordPublish, Function.update_self, Function.update_of_ne hrp]
        at hr heq
      exact absurd heq (hlt r hr).ne'
    · subst hrp
      simp only [setCall, recordPublish, Function.update_self, Function.update_of_ne hqp]
        at hq heq
      exact absurd heq (hlt q hq).ne
    · simp only [setCall, recordPublish, Function.update_of_ne hqp, Function.update_of_ne hrp]
        at hq hr heq
      exact inv.distinct q r hq hr heq
  case fresh =>
    intro q hq e he
    by_cases hqp : q = p
    · subst hqp
      have hin := (List.getElem?_eq_some_iff.mp (inv.entered e he)).1
      simp only [recordPublish, Function.update_self]
      exact hin.ne
    · simp only [setCall, recordPublish, Function.update_of_ne hqp] at hq ⊢
      exact inv.fresh q hq e he
  case entered => exact fun e he => hkeep _ _ (inv.entered e he)
  case nodup => exact inv.nodup

theorem CallInvariant.pushed {s t : TcpServer ι} {h : History ι} {p : ι} (inv : CallInvariant s h)
    (hsame : CallInvariant t h) (hp : (s.calls p).pc.beforePush = true)
    (hothers : ∀ q, (t.calls q).pc.beforePush = true →
      (s.calls q).pc.beforePush = true ∧ q ≠ p) :
    CallInvariant t (recordPublish s h p .push) := by
  constructor
  case frame => exact hsame.frame
  case number => exact hsame.number
  case distinct => exact hsame.distinct
  case fresh =>
    intro q hq e he
    rcases List.mem_append.mp he with he | he
    · exact hsame.fresh q hq e he
    · obtain rfl := List.mem_singleton.mp he
      intro heq
      exact (hothers q hq).2 (inv.distinct p q hp (hothers q hq).1 heq).symm
  case entered =>
    intro e he
    rcases List.mem_append.mp he with he | he
    · exact inv.entered e he
    · obtain rfl := List.mem_singleton.mp he
      exact inv.number p hp
  case nodup =>
    simp only [recordPublish, List.map_append, List.map_singleton]
    refine List.nodup_append.mpr ⟨inv.nodup, List.nodup_singleton _, ?_⟩
    intro a ha b hb
    obtain ⟨e, he, rfl⟩ := List.mem_map.mp ha
    obtain rfl := List.mem_singleton.mp hb
    exact inv.fresh p hp e he

theorem publishStep_callInvariant {s t : TcpServer ι} {h : History ι} {p : ι}
    {event : PublishEvent} (inv : CallInvariant s h) (hstep : s.publishStep p event = some t) :
    CallInvariant t (recordPublish s h p event) := by
  by_cases hcall : ∃ frame, event = .call frame
  · obtain ⟨frame, rfl⟩ := hcall
    exact call_callInvariant inv hstep
  · obtain ⟨call, hcalls, hbefore⟩ :=
      publishStep_calls hstep fun frame hf => hcall ⟨frame, hf⟩
    have hpre : ∀ q, (t.calls q).pc.beforePush = true → (s.calls q).pc.beforePush = true ∧
        (t.calls q).frame = (s.calls q).frame ∧ (q = p → event ≠ .push) := by
      intro q hq
      by_cases hqp : q = p
      · subst hqp
        simp only [hcalls, Function.update_self] at hq ⊢
        obtain ⟨h1, h2, h3⟩ := hbefore hq
        exact ⟨h1, h2, fun _ => h3⟩
      · simp only [hcalls, Function.update_of_ne hqp] at hq ⊢
        exact ⟨hq, trivial, fun h => absurd h hqp⟩
    have hsame : CallInvariant t h :=
      { frame := fun q hq => (hpre q hq).2.1.trans (inv.frame q (hpre q hq).1)
        number := fun q hq => inv.number q (hpre q hq).1
        distinct := fun q r hq hr => inv.distinct q r (hpre q hq).1 (hpre r hr).1
        fresh := fun q hq => inv.fresh q (hpre q hq).1
        entered := inv.entered
        nodup := inv.nodup }
    cases event with
    | push =>
      have hpc : (s.calls p).pc = .push := by
        simp only [publishStep, Option.ite_none_right_eq_some] at hstep
        exact hstep.1
      have hp : (s.calls p).pc.beforePush = true := by
        rw [hpc]
        rfl
      exact inv.pushed hsame hp fun q hq => ⟨(hpre q hq).1, fun he => (hpre q hq).2.2 he rfl⟩
    | call frame => exact absurd ⟨frame, rfl⟩ hcall
    | _ =>
      exact ⟨hsame.frame, hsame.number, hsame.distinct, hsame.fresh, hsame.entered, hsame.nodup⟩

theorem tracedStep_stream {sh th : TcpServer ι × History ι} {a : Action ι}
    (inv : CallInvariant sh.1 sh.2 ∧ StreamInvariant sh.1 sh.2)
    (hstep : tracedStep sh a = some th) : CallInvariant th.1 th.2 ∧ StreamInvariant th.1 th.2 := by
  obtain ⟨hs, hg⟩ := tracedStep_eq_some.mp hstep
  obtain ⟨calls, streams⟩ := inv
  rw [hg]
  simp only [step, Option.ite_none_left_eq_some] at hs
  obtain ⟨-, hs⟩ := hs
  cases a with
  | publish p event =>
    exact ⟨publishStep_callInvariant calls hs, publishStep_stream streams calls hs⟩
  | owner event =>
    obtain ⟨-, -, -, hcalls, -⟩ := ownerStep_frame hs
    refine ⟨?_, ownerStep_stream streams hs⟩
    exact ⟨hcalls ▸ calls.frame, hcalls ▸ calls.number, hcalls ▸ calls.distinct,
      hcalls ▸ calls.fresh, calls.entered, calls.nodup⟩
  | io event =>
    obtain ⟨hcalls, -⟩ := ioStep_threads hs
    obtain ⟨hcalled, hrunning, hentered⟩ := recordIo_calls sh.1 sh.2 event
    refine ⟨?_, ioStep_stream streams hs⟩
    simp only [record]
    constructor
    case frame => rw [hcalls, hrunning]; exact calls.frame
    case number => rw [hcalls, hrunning, hcalled]; exact calls.number
    case distinct => rw [hcalls, hrunning]; exact calls.distinct
    case fresh => rw [hcalls, hrunning, hentered]; exact calls.fresh
    case entered => rw [hentered, hcalled]; exact calls.entered
    case nodup => rw [hentered]; exact calls.nodup

/-- In every run, whatever the interleaving and the outcomes of `send`: what the socket of a
session has accepted is a prefix of the packets of the frames popped for that session. The
frames popped, over all sessions and in order, are a sublist of those that entered the queue,
and each of these is the argument of a call of `publish` of its own. -/
theorem sessions_send_published_frames (capacity : ℕ) {as : List (Action ι)} {s : TcpServer ι}
    (h : exec step (new capacity) as = some s) :
    ∃ g : History ι, exec tracedStep (new capacity, {}) as = some (s, g) ∧
      (∀ k bytes, s.connections[k]? = some bytes → bytes <+: stream g k) ∧
      (g.popped.map Prod.snd).Sublist g.entered ∧
      (g.entered.map Entry.call).Nodup ∧
      ∀ e ∈ g.entered, (calledFrames as)[e.call]? = some e.frame := by
  obtain ⟨g, hg⟩ := exec_traced h {}
  have hstart : CallInvariant (new capacity : TcpServer ι) {} ∧
      StreamInvariant (new capacity : TcpServer ι) {} := by
    constructor
    · constructor <;> simp [new, PublishPc.beforePush]
    · refine ⟨?_, ?_, ?_, ?_, ?_, ?_, ?_⟩ <;> simp [new, FrameQueue.new]
      split_ifs <;> omega
  obtain ⟨calls, streams⟩ :=
    exec_invariant (fun _ _ _ inv hs => tracedStep_stream inv hs) hstart hg
  refine ⟨g, hg, streams.sent, ?_, calls.nodup, ?_⟩
  · exact (List.sublist_append_left _ _).trans streams.order
  · have hcalled := exec_called hg
    rw [List.nil_append] at hcalled
    rw [← hcalled]
    exact calls.entered

/-- A frame is published to a connected client, whose socket takes only ten bytes of it. -/
theorem sessions_send_published_frames_partial :
    let frame : Frame := ⟨7, 9, [⟨1, 2, 3⟩]⟩
    let as : List (Action Unit) := startActions ++ acceptActions ++ publishActions () frame ++
      wakeActions ++ [.io .pump, .io (.send (.written 10)), .io .pump]
    ∃ s, exec step (new 4) as = some s ∧ s.connections = [(encode frame).take 10] ∧
      ∃ g : History Unit, (∀ k bytes, s.connections[k]? = some bytes → bytes <+: stream g k) ∧
        ∀ e ∈ g.entered, (calledFrames as)[e.call]? = some e.frame := by
  intro frame as
  have hbytes : (exec step (new 4) as).map TcpServer.connections =
      some [(encode frame).take 10] := by decide +kernel
  obtain ⟨s, hs, hs'⟩ := Option.map_eq_some_iff.mp hbytes
  obtain ⟨g, -, hsent, -, -, hcalls⟩ := sessions_send_published_frames 4 hs
  exact ⟨s, hs, hs', g, hsent, hcalls⟩

end AebNode.TcpServer
