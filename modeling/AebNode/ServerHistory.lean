import AebNode.TcpServer

/-! What happened in a run of the server so far, recorded beside the state: the frames in the
order they entered the queue, those still in it, and those popped for each session. The
record only watches; it never decides a step. -/
namespace AebNode.TcpServer
open Machine Protocol

/-- One call of `publish`: its number, how many connections had been accepted when it began,
and its argument. -/
structure Entry where
  call : ℕ := 0
  begun : ℕ := 0
  frame : Frame := {}
  deriving DecidableEq, Repr

/-- The arguments of all calls so far, the call each publisher is in, and the entries of the
queue: in the order they entered it, those still there, and those popped, with the session. -/
structure History (ι : Type*) where
  called : List Frame := []
  running : ι → Entry := fun _ => {}
  entered : List Entry := []
  queued : List Entry := []
  popped : List (ℕ × Entry) := []

variable {ι : Type*}

/-! What the steps of each thread leave alone. -/

/-- The owner leaves the queue, the session and the callers alone, and puts the I/O thread
nowhere but at its start. -/
theorem ownerStep_frame {s t : TcpServer ι} {event : OwnerEvent}
    (h : s.ownerStep event = some t) :
    t.queue = s.queue ∧ t.session = s.session ∧ t.connections = s.connections ∧
      t.calls = s.calls ∧
      (t.io = s.io ∨ t.io = { pc := .loopHead } ∧ s.joinable = false ∧ t.joinable = true) := by
  cases event <;> simp only [ownerStep] at h
  case signal =>
    simp only [Option.ite_none_right_eq_some, Option.map_eq_some_iff] at h
    obtain ⟨_, _, _, rfl⟩ := h
    exact ⟨rfl, rfl, rfl, rfl, Or.inl rfl⟩
  case openWake succeeds =>
    simp only [Option.ite_none_right_eq_some, Option.some.injEq] at h
    obtain ⟨_, rfl⟩ := h
    cases succeeds <;> exact ⟨rfl, rfl, rfl, rfl, Or.inl rfl⟩
  case spawn succeeds =>
    simp only [Option.ite_none_right_eq_some, Option.some.injEq] at h
    obtain ⟨_, rfl⟩ := h
    cases succeeds with
    | false => exact ⟨rfl, rfl, rfl, rfl, Or.inl rfl⟩
    | true =>
      cases hj : s.joinable with
      | false => exact ⟨rfl, rfl, rfl, rfl, Or.inr ⟨rfl, rfl, rfl⟩⟩
      | true => exact ⟨rfl, rfl, rfl, rfl, Or.inl rfl⟩
  all_goals
    split_ifs at h <;> obtain rfl := Option.some.inj h <;>
      exact ⟨rfl, rfl, rfl, rfl, Or.inl rfl⟩

/-- A worker that is not joinable has ended: only the join, which waits for that, gives the
handle up. -/
theorem ownerStep_joinable {s t : TcpServer ι} {event : OwnerEvent}
    (h : s.ownerStep event = some t) (hj : t.joinable = false) :
    s.joinable = false ∨ s.io.pc = .exited := by
  by_cases hold : s.joinable = false
  · exact Or.inl hold
  cases event <;> simp only [ownerStep] at h
  case join =>
    simp only [Option.ite_none_right_eq_some] at h
    exact Or.inr (h.1.2 (by simpa using hold))
  case signal =>
    simp only [Option.ite_none_right_eq_some, Option.map_eq_some_iff] at h
    obtain ⟨_, _, _, rfl⟩ := h
    exact Or.inl hj
  case spawn =>
    split_ifs at h <;> obtain rfl := Option.some.inj h <;> simp_all
  all_goals
    split_ifs at h <;> obtain rfl := Option.some.inj h <;> exact Or.inl hj

/-- The steps of the I/O thread that touch the queue, the session or a client socket. -/
def IoEvent.streams : IoEvent → Bool
  | .accept _ | .install | .clearForSession | .service | .pump | .send _ | .closeSession
  | .exitClear => true
  | _ => false

theorem ioStep_frame {s t : TcpServer ι} {event : IoEvent} (h : s.ioStep event = some t)
    (he : event.streams = false) :
    t.queue = s.queue ∧ t.session = s.session ∧ t.connections = s.connections ∧
      t.io.accepted = s.io.accepted := by
  cases event <;> first | contradiction | simp only [ioStep, Option.ite_none_right_eq_some,
    Option.some.injEq, Option.map_eq_some_iff] at h
  case loadStop =>
    obtain ⟨_, rfl⟩ := h
    cases s.stopRequested <;> exact ⟨rfl, rfl, rfl, rfl⟩
  case pollFails interrupted =>
    obtain ⟨_, rfl⟩ := h
    cases interrupted <;> exact ⟨rfl, rfl, rfl, rfl⟩
  case drain =>
    obtain ⟨_, ⟨_, next⟩, _, rfl⟩ := h
    cases next <;> exact ⟨rfl, rfl, rfl, rfl⟩
  case clientEvents =>
    obtain ⟨_, rfl⟩ := h
    refine ⟨rfl, rfl, rfl, ?_⟩
    simp only [callEndSession]
    split_ifs <;> rfl
  case recv result =>
    obtain ⟨_, rfl⟩ := h
    cases result <;> exact ⟨rfl, rfl, rfl, rfl⟩
  case countProgress =>
    obtain ⟨_, rfl⟩ := h
    cases hf : s.io.failed <;> simp [callEndSession]
  all_goals
    obtain ⟨_, rfl⟩ := h
    exact ⟨rfl, rfl, rfl, rfl⟩

/-- The I/O thread never changes another thread's locals, nor the stop flag. -/
theorem ioStep_threads {s t : TcpServer ι} {event : IoEvent} (h : s.ioStep event = some t) :
    t.calls = s.calls ∧ t.owner = s.owner ∧ t.stopRequested = s.stopRequested ∧
      t.joinable = s.joinable := by
  cases event <;> simp only [ioStep, Option.ite_none_right_eq_some, Option.some.injEq,
    Option.map_eq_some_iff] at h
  case drain =>
    obtain ⟨_, _, _, rfl⟩ := h
    exact ⟨rfl, rfl, rfl, rfl⟩
  case accept result =>
    obtain ⟨_, h⟩ := h
    cases result <;> obtain rfl := Option.some.inj h <;> exact ⟨rfl, rfl, rfl, rfl⟩
  case send result =>
    obtain ⟨_, h⟩ := h
    cases result <;> simp only [Option.ite_none_right_eq_some, Option.some.injEq] at h
    case written =>
      obtain ⟨_, rfl⟩ := h
      exact ⟨rfl, rfl, rfl, rfl⟩
    all_goals
      subst h
      exact ⟨rfl, rfl, rfl, rfl⟩
  case pump =>
    obtain ⟨_, h⟩ := h
    split_ifs at h <;> obtain rfl := Option.some.inj h <;> exact ⟨rfl, rfl, rfl, rfl⟩
  case service =>
    obtain ⟨_, rfl⟩ := h
    split_ifs <;> exact ⟨rfl, rfl, rfl, rfl⟩
  case closeSession =>
    obtain ⟨_, rfl⟩ := h
    split_ifs <;> exact ⟨rfl, rfl, rfl, rfl⟩
  all_goals
    obtain ⟨_, rfl⟩ := h
    exact ⟨rfl, rfl, rfl, rfl⟩

def recordIo (s : TcpServer ι) (h : History ι) : IoEvent → History ι
  | .clearForSession => { h with queued := [] }
  | .exitClear => { h with queued := [] }
  | .service => if s.session.valid then h else { h with queued := [] }
  | .pump =>
    if s.session.sendOffset < s.session.sendBuffer.length then h
    else match s.session.socket, h.queued with
      | some k, entry :: rest => { h with queued := rest, popped := h.popped ++ [(k, entry)] }
      | _, _ => h
  | _ => h

theorem recordIo_calls (s : TcpServer ι) (h : History ι) (event : IoEvent) :
    (recordIo s h event).called = h.called ∧ (recordIo s h event).running = h.running ∧
      (recordIo s h event).entered = h.entered := by
  cases event <;> simp only [recordIo]
  case service => split_ifs <;> exact ⟨rfl, rfl, rfl⟩
  case pump =>
    split_ifs
    · exact ⟨rfl, rfl, rfl⟩
    · split <;> exact ⟨rfl, rfl, rfl⟩
  all_goals exact ⟨trivial, trivial, trivial⟩

variable [DecidableEq ι]

/-- A publisher reads the session's flags but never touches the session or the I/O thread. -/
theorem publishStep_frame {s t : TcpServer ι} {p : ι} {event : PublishEvent}
    (h : s.publishStep p event = some t) :
    t.session = s.session ∧ t.connections = s.connections ∧ t.io = s.io ∧
      t.owner = s.owner ∧ t.stopRequested = s.stopRequested ∧ t.joinable = s.joinable := by
  cases event <;>
    simp only [publishStep, Option.ite_none_right_eq_some, Option.some.injEq,
      Option.map_eq_some_iff] at h
  case signal =>
    obtain ⟨_, _, _, rfl⟩ := h
    exact ⟨rfl, rfl, rfl, rfl, rfl, rfl⟩
  all_goals
    obtain ⟨_, rfl⟩ := h
    exact ⟨rfl, rfl, rfl, rfl, rfl, rfl⟩

theorem publishStep_queue {s t : TcpServer ι} {p : ι} {event : PublishEvent}
    (h : s.publishStep p event = some t) :
    t.queue = match event with
      | .push => (s.queue.push (s.calls p).frame).1
      | .pushThrows => s.queue.pushThrows
      | _ => s.queue := by
  cases event <;>
    simp only [publishStep, Option.ite_none_right_eq_some, Option.some.injEq,
      Option.map_eq_some_iff] at h
  case signal =>
    obtain ⟨_, _, _, rfl⟩ := h
    rfl
  all_goals
    obtain ⟨_, rfl⟩ := h
    rfl

theorem step_capacity {s t : TcpServer ι} {a : Action ι} (h : s.step a = some t) :
    t.queue.capacity = s.queue.capacity := by
  simp only [step, Option.ite_none_left_eq_some] at h
  obtain ⟨-, h⟩ := h
  cases a with
  | publish p event =>
    rw [publishStep_queue h]
    cases event <;> first | rfl | exact FrameQueue.push_capacity _ _ |
      exact FrameQueue.pushThrows_capacity _
  | owner event => rw [(ownerStep_frame h).1]
  | io event =>
    cases he : event.streams with
    | false => rw [(ioStep_frame h he).1]
    | true =>
      cases event <;> first | contradiction | simp only [ioStep, Option.ite_none_right_eq_some,
        Option.some.injEq] at h
      case accept result =>
        cases result <;> obtain rfl := Option.some.inj h.2 <;> rfl
      case send result =>
        obtain ⟨-, h⟩ := h
        cases result <;> simp only [Option.ite_none_right_eq_some, Option.some.injEq] at h
        case written => rw [← h.2]
        all_goals rw [← h]
      case pump =>
        obtain ⟨-, h⟩ := h
        split_ifs at h <;> obtain rfl := Option.some.inj h <;>
          first | rfl | exact FrameQueue.pop_capacity _ _
      all_goals
        obtain ⟨-, rfl⟩ := h
        try split_ifs
        all_goals first | rfl | exact FrameQueue.clear_capacity _

def recordPublish (s : TcpServer ι) (h : History ι) (p : ι) : PublishEvent → History ι
  | .call frame =>
    { h with
      called := h.called ++ [frame]
      running := Function.update h.running p ⟨h.called.length, s.connections.length, frame⟩ }
  | .push =>
    { h with
      entered := h.entered ++ [h.running p]
      queued := (BoundedFifo.push s.queue.capacity h.queued (h.running p)).1 }
  | .pushThrows =>
    { h with queued := h.queued.drop (h.queued.length + 1 - s.queue.capacity) }
  | _ => h

/-- What the action does to the record, judged by the state it starts from. -/
def record (s : TcpServer ι) (h : History ι) : Action ι → History ι
  | .publish p event => recordPublish s h p event
  | .owner _ => h
  | .io event => recordIo s h event

/-- The arguments of the calls of `publish` in a run, in the order the calls begin. -/
def calledFrames : List (Action ι) → List Frame
  | [] => []
  | .publish _ (.call frame) :: as => frame :: calledFrames as
  | _ :: as => calledFrames as

def tracedStep (sh : TcpServer ι × History ι) (a : Action ι) :
    Option (TcpServer ι × History ι) :=
  (sh.1.step a).map fun t => (t, record sh.1 sh.2 a)

theorem tracedStep_eq_some {s t : TcpServer ι} {h g : History ι} {a : Action ι} :
    tracedStep (s, h) a = some (t, g) ↔ s.step a = some t ∧ g = record s h a := by
  simp only [tracedStep, Option.map_eq_some_iff, Prod.mk.injEq]
  constructor
  · rintro ⟨t, hs, rfl, rfl⟩
    exact ⟨hs, rfl⟩
  · rintro ⟨hs, rfl⟩
    exact ⟨t, hs, rfl, rfl⟩

theorem exec_traced {s t : TcpServer ι} {as : List (Action ι)} (h : exec step s as = some t)
    (g : History ι) : ∃ g', exec tracedStep (s, g) as = some (t, g') := by
  induction as generalizing s g with
  | nil =>
    obtain rfl := Option.some.inj h
    exact ⟨g, rfl⟩
  | cons a as ih =>
    obtain ⟨u, hu, ht⟩ := exec_cons.mp h
    obtain ⟨g', hg'⟩ := ih ht (record s g a)
    exact ⟨g', exec_cons.mpr ⟨_, tracedStep_eq_some.mpr ⟨hu, rfl⟩, hg'⟩⟩

/-- The recorded calls are exactly those of the run. -/
theorem exec_called {sh th : TcpServer ι × History ι} {as : List (Action ι)}
    (h : exec tracedStep sh as = some th) : th.2.called = sh.2.called ++ calledFrames as := by
  induction as generalizing sh with
  | nil =>
    obtain rfl := Option.some.inj h
    simp [calledFrames]
  | cons a as ih =>
    obtain ⟨⟨u, g⟩, hu, ht⟩ := exec_cons.mp h
    obtain ⟨-, rfl⟩ := tracedStep_eq_some.mp hu
    rw [ih ht]
    cases a with
    | publish p event =>
      cases event <;> simp [record, recordPublish, calledFrames]
    | owner event => rfl
    | io event =>
      have hc := (recordIo_calls sh.1 sh.2 event).1
      simp [record, calledFrames, hc]

end AebNode.TcpServer
