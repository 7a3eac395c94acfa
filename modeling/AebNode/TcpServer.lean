import AebNode.FrameQueue
import AebNode.Machine
import AebNode.Protocol
import AebNode.WakePipe

/-! The streaming server as interleaved steps: any number of callers of `publish`, the I/O
thread with its client session, and the owner that starts and stops it. A step is one atomic
load, store or exchange, one operation under a mutex, or one system call; what only the
stepping thread can see rides along with it. -/
namespace AebNode
open LittleEndian Protocol WakePipe

/-! The client session. A socket is known by the number of the connection it was accepted for. -/

structure ClientSession where
  socket : Option ℕ := none
  sendBuffer : Bytes := []
  sendOffset : ℕ := 0
  staging : Frame := {}
  deriving DecidableEq, Repr

namespace ClientSession

def valid (c : ClientSession) : Bool := c.socket.isSome

/-- Whether `POLLOUT` is among the events registered; `POLLIN` always is. -/
def pollsOut (c : ClientSession) (hasPendingFrames : Bool) : Bool :=
  hasPendingFrames || decide (c.sendOffset < c.sendBuffer.length)

def close (c : ClientSession) : ClientSession :=
  { c with socket := none, sendBuffer := [], sendOffset := 0 }

/-- The bytes of the frame in transmission that the socket has not taken yet. -/
def unsent (c : ClientSession) : Bytes := c.sendBuffer.drop c.sendOffset

end ClientSession

namespace TcpServer

structure Stats where
  framesPublished : ℕ := 0
  framesDropped : ℕ := 0
  framesSent : ℕ := 0
  bytesSent : ℕ := 0
  clientConnects : ℕ := 0
  clientDisconnects : ℕ := 0
  sendErrors : ℕ := 0
  clientConnected : Bool := false
  deriving DecidableEq, Repr

inductive PublishPc
  | idle
  | loadConnected
  | loadRunning
  | discard
  | push
  | addDropped
  | signal
  deriving DecidableEq, Repr

/-- One caller of `publish`: its argument, its locals and its place in `signal`. -/
structure PublishCall where
  pc : PublishPc := .idle
  frame : Frame := {}
  dropped : ℕ := 0
  signal : SignalPc := .check
  deriving DecidableEq, Repr

inductive OwnerPc
  | idle
  | stopSignal
  | stopJoin
  | stopResetEnds
  | stopClearPending
  | stopClearConnected
  | stopClearRunning
  | startClearStop
  | startOpenWake
  | startListen
  | startSetRunning
  | startSpawn
  | spawnClearRunning
  | startResetEnds
  | startClearPending
  | terminated
  deriving DecidableEq, Repr

/-- The thread that calls `start` and `stop`, one call at a time. -/
structure Owner where
  pc : OwnerPc := .idle
  signal : SignalPc := .check
  deriving DecidableEq, Repr

structure ClientEvents where
  input : Bool := false
  output : Bool := false
  hangUp : Bool := false
  error : Bool := false
  invalid : Bool := false
  deriving DecidableEq, Repr

inductive IoPc
  | loopHead
  | prepare
  | poll
  | drain
  | clientEvents
  | drainInput
  | listenEvents
  | accept
  | install
  | clearForSession
  | countConnect
  | service
  | pump
  | send
  | countProgress
  | closeSession
  | clearConnected
  | countDisconnect
  | exitClear
  | exitRunning
  | exited
  deriving DecidableEq, Repr

/-- The I/O thread: its place in `run` and the locals of the functions it is in. -/
structure IoThread where
  pc : IoPc := .exited
  drainPc : DrainPc := .read
  registered : Option Bool := none
  wakeReady : Bool := false
  listenReady : Bool := false
  events : ClientEvents := {}
  accepted : Option ℕ := none
  bytesSent : ℕ := 0
  framesSent : ℕ := 0
  failed : Bool := false
  errorRelated : Bool := false
  returnTo : IoPc := .loopHead
  deriving DecidableEq, Repr

end TcpServer

open TcpServer

/-- The server, with the bytes the socket of each connection has accepted so far. -/
structure TcpServer (ι : Type*) where
  queue : FrameQueue FloatBits
  stopRequested : Bool := false
  running : Bool := false
  clientConnected : Bool := false
  wake : WakePipe := {}
  session : ClientSession := {}
  stats : Stats := {}
  joinable : Bool := false
  calls : ι → PublishCall := fun _ => {}
  owner : Owner := {}
  io : IoThread := {}
  connections : List Bytes := []

namespace TcpServer

inductive PublishEvent
  | call (frame : Frame)
  | loadConnected
  | loadRunning
  | discard
  | push
  | pushThrows
  | addDropped
  | signal (event : SignalEvent)
  deriving DecidableEq, Repr

inductive OwnerEvent
  | stop
  | signal (event : SignalEvent)
  | join
  | resetEnds
  | clearPending
  | clearConnected
  | clearRunning
  | start
  | clearStop
  | openWake (succeeds : Bool)
  | listen (succeeds : Bool)
  | setRunning
  | spawn (succeeds : Bool)
  deriving DecidableEq, Repr

inductive RecvResult
  | data
  | closed
  | interrupted
  | wouldBlock
  | failed
  deriving DecidableEq, Repr

/-- What one call of `accept` and the switch to non-blocking mode end in. -/
inductive AcceptResult
  | connected
  | interrupted
  | notNonBlocking
  | none
  deriving DecidableEq, Repr

inductive SendResult
  | written (n : ℕ)
  | interrupted
  | wouldBlock
  | failed
  deriving DecidableEq, Repr

inductive IoEvent
  | loadStop
  | prepare
  | pollFails (interrupted : Bool)
  | pollReturns (wake listen : Bool) (events : ClientEvents)
  | drain (event : DrainEvent)
  | clientEvents
  | recv (result : RecvResult)
  | listenEvents
  | accept (result : AcceptResult)
  | install
  | clearForSession
  | countConnect
  | service
  | pump
  | send (result : SendResult)
  | countProgress
  | closeSession
  | clearConnected
  | countDisconnect
  | exitClear
  | exitRunning
  deriving DecidableEq, Repr

inductive Action (ι : Type*)
  | publish (p : ι) (event : PublishEvent)
  | owner (event : OwnerEvent)
  | io (event : IoEvent)
  deriving DecidableEq, Repr

variable {ι : Type*}

def new (capacity : ℕ) : TcpServer ι := { queue := .new capacity }

section Steps
variable [DecidableEq ι]

def setCall (s : TcpServer ι) (p : ι) (call : PublishCall) : TcpServer ι :=
  { s with calls := Function.update s.calls p call }

def publishStep (s : TcpServer ι) (p : ι) : PublishEvent → Option (TcpServer ι)
  | .call frame =>
    if (s.calls p).pc = .idle then
      some { s.setCall p { pc := .loadConnected, frame := frame } with
        stats := { s.stats with framesPublished := s.stats.framesPublished + 1 } }
    else none
  | .loadConnected =>
    if (s.calls p).pc = .loadConnected then
      some (s.setCall p { s.calls p with
        pc := if s.clientConnected then .loadRunning else .discard })
    else none
  | .loadRunning =>
    if (s.calls p).pc = .loadRunning then
      some (s.setCall p { s.calls p with pc := if s.running then .push else .discard })
    else none
  | .discard =>
    if (s.calls p).pc = .discard then
      some { s.setCall p {} with
        stats := { s.stats with framesDropped := s.stats.framesDropped + 1 } }
    else none
  | .push =>
    if (s.calls p).pc = .push then
      let pushed := s.queue.push (s.calls p).frame
      some { s.setCall p { s.calls p with
          pc := if pushed.2 ≠ 0 then .addDropped else .signal
          dropped := pushed.2
          signal := .check } with
        queue := pushed.1 }
    else none
  -- Copying the points or growing the deque throws, and so does `publish`.
  | .pushThrows =>
    if (s.calls p).pc = .push then some { s.setCall p {} with queue := s.queue.pushThrows }
    else none
  | .addDropped =>
    if (s.calls p).pc = .addDropped then
      some { s.setCall p { s.calls p with pc := .signal } with
        stats := { s.stats with framesDropped := s.stats.framesDropped + (s.calls p).dropped } }
    else none
  | .signal event =>
    if (s.calls p).pc = .signal then
      (signalStep s.wake (s.calls p).signal event).map fun r =>
        { s.setCall p (match r.2 with
            | some next => { s.calls p with signal := next }
            | none => {}) with
          wake := r.1 }
    else none

def ownerStep (s : TcpServer ι) : OwnerEvent → Option (TcpServer ι)
  | .stop =>
    if s.owner.pc = .idle then
      some { s with stopRequested := true, owner := { pc := .stopSignal } }
    else none
  | .signal event =>
    if s.owner.pc = .stopSignal then
      (signalStep s.wake s.owner.signal event).map fun r =>
        { s with
          wake := r.1
          owner := match r.2 with
            | some next => { s.owner with signal := next }
            | none => { pc := .stopJoin } }
    else none
  | .join =>
    if s.owner.pc = .stopJoin ∧ (s.joinable = true → s.io.pc = .exited) then
      some { s with joinable := false, owner := { pc := .stopResetEnds } }
    else none
  | .resetEnds =>
    if s.owner.pc = .stopResetEnds then
      some { s with wake := s.wake.resetEnds, owner := { pc := .stopClearPending } }
    else if s.owner.pc = .startResetEnds then
      some { s with wake := s.wake.resetEnds, owner := { pc := .startClearPending } }
    else none
  | .clearPending =>
    if s.owner.pc = .stopClearPending then
      some { s with
        wake := { s.wake with pending := false }
        owner := { pc := .stopClearConnected } }
    else if s.owner.pc = .startClearPending then
      some { s with wake := { s.wake with pending := false }, owner := { pc := .idle } }
    else none
  | .clearConnected =>
    if s.owner.pc = .stopClearConnected then
      some { s with clientConnected := false, owner := { pc := .stopClearRunning } }
    else none
  | .clearRunning =>
    if s.owner.pc = .stopClearRunning then
      some { s with running := false, owner := { pc := .idle } }
    else if s.owner.pc = .spawnClearRunning then
      some { s with running := false, owner := { pc := .startResetEnds } }
    else none
  | .start =>
    if s.owner.pc = .idle then
      some { s with owner := { pc := if s.running then .idle else .startClearStop } }
    else none
  | .clearStop =>
    if s.owner.pc = .startClearStop then
      some { s with stopRequested := false, owner := { pc := .startOpenWake } }
    else none
  | .openWake succeeds =>
    if s.owner.pc = .startOpenWake then
      some (if succeeds then { s with wake := s.wake.opened, owner := { pc := .startListen } }
        else { s with owner := { pc := .startResetEnds } })
    else none
  | .listen succeeds =>
    if s.owner.pc = .startListen then
      some { s with owner := { pc := if succeeds then .startSetRunning else .startResetEnds } }
    else none
  | .setRunning =>
    if s.owner.pc = .startSetRunning then
      some { s with running := true, owner := { pc := .startSpawn } }
    else none
  | .spawn succeeds =>
    if s.owner.pc = .startSpawn then
      some (if ¬ succeeds then { s with owner := { pc := .spawnClearRunning } }
        -- Assigning to a thread that was never joined ends the program.
        else if s.joinable then { s with owner := { pc := .terminated } }
        else { s with joinable := true, io := { pc := .loopHead }, owner := { pc := .idle } })
    else none

def callEndSession (io : IoThread) (errorRelated : Bool) (returnTo : IoPc) : IoThread :=
  { io with pc := .closeSession, errorRelated := errorRelated, returnTo := returnTo }

/-- One step of the I/O thread. It never runs out of memory here: it has no handler for that, and
the program would end. -/
def ioStep (s : TcpServer ι) : IoEvent → Option (TcpServer ι)
  | .loadStop =>
    if s.io.pc = .loopHead then
      some { s with io := if s.stopRequested then callEndSession s.io false .exitClear
        else { s.io with pc := .prepare } }
    else none
  | .prepare =>
    if s.io.pc = .prepare then
      some { s with io := { s.io with
        pc := .poll
        registered := if s.session.valid then some (s.session.pollsOut (!s.queue.empty))
          else none } }
    else none
  | .pollFails interrupted =>
    if s.io.pc = .poll then
      some { s with io := if interrupted then { s.io with pc := .loopHead }
        else callEndSession s.io false .exitClear }
    else none
  | .pollReturns wake listen events =>
    if s.io.pc = .poll ∧ (wake = true → 0 < s.wake.bytes) ∧
        (events ≠ {} → s.io.registered ≠ none) ∧ (wake ∨ listen ∨ events ≠ {}) then
      some { s with io := { s.io with
        pc := if wake then .drain else .clientEvents
        drainPc := .read
        wakeReady := wake
        listenReady := listen
        events := events } }
    else none
  | .drain event =>
    if s.io.pc = .drain then
      (drainStep s.wake s.io.drainPc event).map fun r =>
        { s with
          wake := r.1
          io := match r.2 with
            | some next => { s.io with drainPc := next }
            | none => { s.io with pc := .clientEvents } }
    else none
  | .clientEvents =>
    if s.io.pc = .clientEvents then
      some { s with io :=
        if s.session.valid ∧ s.io.registered ≠ none then
          if s.io.events.hangUp ∨ s.io.events.error ∨ s.io.events.invalid then
            callEndSession s.io s.io.events.error .listenEvents
          else if ¬ s.io.events.input then { s.io with pc := .listenEvents }
          else { s.io with pc := .drainInput }
        else { s.io with pc := .listenEvents } }
    else none
  | .recv result =>
    if s.io.pc = .drainInput then
      some { s with io := match result with
        | .data | .interrupted => s.io
        | .wouldBlock => { s.io with pc := .listenEvents }
        | .closed => callEndSession s.io false .listenEvents
        | .failed => callEndSession s.io true .listenEvents }
    else none
  | .listenEvents =>
    if s.io.pc = .listenEvents then
      some { s with io := { s.io with pc := if s.io.listenReady then .accept else .service } }
    else none
  | .accept result =>
    if s.io.pc = .accept then
      match result with
      | .interrupted | .notNonBlocking => some s
      | .none => some { s with io := { s.io with pc := .service } }
      | .connected =>
        let io := { s.io with accepted := some s.connections.length }
        some { s with
          connections := s.connections ++ [[]]
          io := if s.session.valid then callEndSession io false .install
            else { io with pc := .install } }
    else none
  | .install =>
    if s.io.pc = .install then
      some { s with
        session := { socket := s.io.accepted }
        clientConnected := true
        io := { s.io with pc := .clearForSession, accepted := none } }
    else none
  | .clearForSession =>
    if s.io.pc = .clearForSession then
      some { s with queue := s.queue.clear, io := { s.io with pc := .countConnect } }
    else none
  | .countConnect =>
    if s.io.pc = .countConnect then
      some { s with
        stats := { s.stats with
          clientConnects := s.stats.clientConnects + 1
          clientConnected := true }
        io := { s.io with pc := .service } }
    else none
  | .service =>
    if s.io.pc = .service then
      some (if s.session.valid then
          { s with io := { s.io with pc := .pump, bytesSent := 0, framesSent := 0 } }
        else { s with queue := s.queue.clear, io := { s.io with pc := .loopHead } })
    else none
  -- The head of the loop in `ClientSession::pump`.
  | .pump =>
    if s.io.pc = .pump then
      if s.session.valid = false then
        some { s with io := { s.io with pc := .countProgress, failed := true } }
      else if s.session.sendOffset < s.session.sendBuffer.length then
        some { s with io := { s.io with pc := .send } }
      else
        let popped := s.queue.pop s.session.staging
        if popped.2.1 then
          some { s with
            queue := popped.1
            session := { s.session with
              staging := popped.2.2
              sendBuffer := encode popped.2.2
              sendOffset := 0 }
            io := { s.io with pc := .send } }
        else some { s with io := { s.io with pc := .countProgress, failed := false } }
    else none
  | .send result =>
    if s.io.pc = .send then
      match result with
      | .written n =>
        if 0 < n ∧ n ≤ s.session.unsent.length then
          let session := { s.session with sendOffset := s.session.sendOffset + n }
          some { s with
            session := session
            connections := match s.session.socket with
              | some k => s.connections.modify k (· ++ s.session.unsent.take n)
              | none => s.connections
            io := { s.io with
              pc := .pump
              bytesSent := s.io.bytesSent + n
              framesSent := if session.sendBuffer.length ≤ session.sendOffset
                then s.io.framesSent + 1 else s.io.framesSent } }
        else none
      | .interrupted => some { s with io := { s.io with pc := .pump } }
      | .wouldBlock => some { s with io := { s.io with pc := .countProgress, failed := false } }
      | .failed => some { s with io := { s.io with pc := .countProgress, failed := true } }
    else none
  | .countProgress =>
    if s.io.pc = .countProgress then
      some { s with
        stats := { s.stats with
          bytesSent := s.stats.bytesSent + s.io.bytesSent
          framesSent := s.stats.framesSent + s.io.framesSent }
        io := if s.io.failed then callEndSession s.io true .loopHead
          else { s.io with pc := .loopHead } }
    else none
  | .closeSession =>
    if s.io.pc = .closeSession then
      some (if s.session.valid then
          { s with session := s.session.close, io := { s.io with pc := .clearConnected } }
        else { s with io := { s.io with pc := s.io.returnTo } })
    else none
  | .clearConnected =>
    if s.io.pc = .clearConnected then
      some { s with clientConnected := false, io := { s.io with pc := .countDisconnect } }
    else none
  | .countDisconnect =>
    if s.io.pc = .countDisconnect then
      some { s with
        stats := { s.stats with
          clientDisconnects := s.stats.clientDisconnects + 1
          sendErrors := if s.io.errorRelated then s.stats.sendErrors + 1 else s.stats.sendErrors
          clientConnected := false }
        io := { s.io with pc := s.io.returnTo } }
    else none
  | .exitClear =>
    if s.io.pc = .exitClear then
      some { s with queue := s.queue.clear, io := { s.io with pc := .exitRunning } }
    else none
  | .exitRunning =>
    if s.io.pc = .exitRunning then
      some { s with running := false, io := { s.io with pc := .exited } }
    else none

/-- One step of the process, which has none left once it is terminated. -/
def step (s : TcpServer ι) (a : Action ι) : Option (TcpServer ι) :=
  if s.owner.pc = .terminated then none
  else match a with
    | .publish p event => s.publishStep p event
    | .owner event => s.ownerStep event
    | .io event => s.ioStep event

/-! Undisturbed stretches of a run, for use in examples. -/

def startActions : List (Action ι) :=
  [.owner .start, .owner .clearStop, .owner (.openWake true), .owner (.listen true),
    .owner .setRunning, .owner (.spawn true)]

def acceptActions : List (Action ι) :=
  [.io .loadStop, .io .prepare, .io (.pollReturns false true {}), .io .clientEvents,
    .io .listenEvents, .io (.accept .connected), .io .install, .io .clearForSession,
    .io .countConnect, .io .service, .io .pump, .io .countProgress, .io .loadStop, .io .prepare]

def publishActions (p : ι) (frame : Frame) : List (Action ι) :=
  [.publish p (.call frame), .publish p .loadConnected, .publish p .loadRunning,
    .publish p .push, .publish p (.signal .proceed), .publish p (.signal .proceed),
    .publish p (.signal .written)]

/-- The loop wakes up, drains the pipe and turns to the client. -/
def wakeActions : List (Action ι) :=
  [.io (.pollReturns true false {}), .io (.drain (.got 1)), .io (.drain .wouldBlock),
    .io (.drain .proceed), .io .clientEvents, .io .listenEvents, .io .service]

end Steps

end TcpServer

end AebNode
