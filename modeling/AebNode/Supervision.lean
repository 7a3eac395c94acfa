import AebNode.CanBus
import AebNode.Lidar
import AebNode.Node

/-! `Application::run` as interleaved steps: the main thread, which starts, supervises and shuts
down the components, the acquisition thread with the callback it runs, and the I/O thread of the
server. A step is one of the steps of a component, or one of the main thread between two calls. -/
namespace AebNode
open Binary32 CommandLine Machine Protocol

namespace Application

def kExitSuccess : ℕ := 0
def kExitFailure : ℕ := 1

/-- Where the main thread is. A call of `start` or `stop` lasts until the owner of the component
is idle again. -/
inductive Pc
  | outside
  | installSignals
  | openCan
  | startServer
  | constructLidar
  | startLidar
  | waitSignal
  | checkRunning
  | stopLidar
  | destroyLidar
  | stopServer
  | closeCan
  | destroyed
  | terminated
  deriving DecidableEq, Repr

/-- What the shutdown under way belongs to: `run`, the body of the destructor, or the destructors
of the members behind it. -/
inductive Leaving
  | run
  | destructor
  | members
  deriving DecidableEq, Repr

/-- Where the acquisition thread is in the callback. -/
inductive CallbackPc
  | publish
  | decide
  | finished (throws : Bool)
  deriving DecidableEq, Repr

inductive Signal
  | int
  | term
  | pipe
  deriving DecidableEq, Repr

/-- What one call of `sigtimedwait` ends in. -/
inductive WaitResult
  | signal (number : Signal)
  | interrupted
  | timedOut
  deriving DecidableEq, Repr

end Application

open Application

/-- The application, with the lidar it constructed last and the listening socket of its server,
which only the main thread opens and closes. -/
structure Application where
  canBus : CanBus := {}
  server : TcpServer Unit
  listening : Bool := false
  lidar : Lidar Unit := .new
  hasLidar : Bool := false
  pc : Pc := .outside
  leaving : Leaving := .run
  exitCode : Option ℕ := none
  callback : CallbackPc := .publish

namespace Application

inductive MainEvent
  | run
  | destroy
  | installSignals (succeeds : Bool)
  | openCan (kernel : CanBringUp)
  | server (event : TcpServer.OwnerEvent)
  | constructLidar
  | lidar (event : Lidar.OwnerEvent Unit)
  | wait (result : WaitResult)
  | checkRunning
  | closeCan

inductive CallbackEvent
  | publish (event : TcpServer.PublishEvent)
  | decide (accepts : Bool)

inductive Action
  | main (event : MainEvent)
  | acquisition (event : Lidar.WorkerEvent)
  | callback (event : CallbackEvent)
  | io (event : TcpServer.IoEvent)

def new (capacity : ℕ) : Application := { server := .new capacity }

/-- The first statement of `shutdown` on: there may be no lidar to stop. -/
def shutdown (s : Application) : Application :=
  { s with pc := if s.hasLidar then .stopLidar else .stopServer }

/-- What `shutdown` returns to. The members are destroyed in reverse order of construction. -/
def leave (s : Application) : Application :=
  match s.leaving with
  | .run => { s with pc := .outside }
  | .destructor => { s.shutdown with leaving := .members }
  | .members => { s with pc := .destroyed }

/-- The end of `lidar_.reset()`, behind the `stop` of the destructor. Destroying a thread that
was never joined ends the program. The first call of `shutdown` behind a failed start finds no
lidar, so the server is next either way. -/
def releaseLidar (s : Application) : Application :=
  if s.lidar.joinable then { s with pc := .terminated }
  else { s with
    lidar := { s.lidar with device := s.lidar.device.close }
    hasLidar := false
    pc := .stopServer }

/-- The listening socket after a step of the owner: `start` stores what `makeListenSocket`
returned; `stop` resets it once the thread is joined, and a failed spawn does. -/
def listeningAfter (s : Application) : TcpServer.OwnerEvent → Bool
  | .listen succeeds => succeeds
  | .join => false
  | .clearRunning => if s.server.owner.pc = .spawnClearRunning then false else s.listening
  | _ => s.listening

variable (options : Options)

/-- The end of `start` or `stop` of the server, told from the place it was called at. -/
def serverReturns (s : Application) (event : TcpServer.OwnerEvent) : Application :=
  if s.server.owner.pc ≠ .idle then s
  else if s.pc = .stopServer then { s with pc := .closeCan }
  else if event = .spawn true then { s with pc := .constructLidar }
  else { s with exitCode := some kExitFailure }.shutdown

/-- The end of `start` or `stop` of the lidar, told from the place it was called at. -/
def lidarReturns (s : Application) (event : Lidar.OwnerEvent Unit) : Application :=
  if s.lidar.owner.pc ≠ .idle then s
  else if s.pc = .stopLidar then { s with pc := .destroyLidar }
  else if s.pc = .destroyLidar then s.releaseLidar
  else if event = .assign then { s with pc := .waitSignal }
  else { s with pc := .destroyLidar, exitCode := some kExitFailure }

def serverCall : Pc → Option TcpServer.OwnerEvent
  | .startServer => some .start
  | .stopServer => some .stop
  | _ => none

def lidarCall : Pc → Option (Lidar.OwnerEvent Unit)
  | .startLidar => some (.start (some ()))
  | .stopLidar | .destroyLidar => some .stop
  | _ => none

def mainStep (s : Application) : MainEvent → Option Application
  | .run =>
    if s.pc = .outside then some { s with pc := .installSignals, exitCode := none } else none
  | .destroy =>
    if s.pc = .outside then some { s with leaving := .destructor }.shutdown else none
  | .installSignals succeeds =>
    if s.pc = .installSignals then
      some (if succeeds then { s with pc := .openCan }
        else { s with pc := .outside, exitCode := some kExitFailure })
    else none
  | .openCan kernel =>
    if s.pc = .openCan then
      if options.noCan then some { s with pc := .startServer }
      else
        let opened := s.canBus.open options.canbus kernel
        some (if opened.2 then { s with canBus := opened.1, pc := .startServer }
          else { s with canBus := opened.1, pc := .outside, exitCode := some kExitFailure })
    else none
  | .server event =>
    if (serverCall s.pc).isSome ∧ (s.server.owner.pc = .idle ↔ serverCall s.pc = some event) then
      (s.server.step (.owner event)).map fun server =>
        { s with server := server, listening := s.listeningAfter event }.serverReturns event
    else none
  | .constructLidar =>
    if s.pc = .constructLidar then
      some { s with lidar := .new, hasLidar := true, pc := .startLidar }
    else none
  | .lidar event =>
    if (lidarCall s.pc).isSome ∧ (s.lidar.owner.pc = .idle ↔ lidarCall s.pc = some event) then
      (s.lidar.step options.lidar (.owner event)).map fun lidar =>
        { s with lidar := lidar }.lidarReturns event
    else none
  -- A SIGPIPE is absorbed; an interrupted wait goes on.
  | .wait result =>
    if s.pc = .waitSignal then
      some (match result with
        | .signal .int | .signal .term => { s with exitCode := some kExitSuccess }.shutdown
        | .signal .pipe | .interrupted => s
        | .timedOut => { s with pc := .checkRunning })
    else none
  | .checkRunning =>
    if s.pc = .checkRunning then
      some (if s.lidar.running then { s with pc := .waitSignal }
        else { s with exitCode := some kExitFailure }.shutdown)
    else none
  | .closeCan =>
    if s.pc = .closeCan then some { s with canBus := s.canBus.close }.leave else none

/-- One step of the acquisition thread outside the callback, its entry and its return included. -/
def acquisitionStep (s : Application) (event : Lidar.WorkerEvent) : Option Application :=
  match event with
  | .deliver now => (s.lidar.step options.lidar (.worker (.deliver now))).map fun lidar =>
    { s with lidar := lidar, callback := .publish }
  | .callbackEnds throws =>
    if s.callback = .finished throws then
      (s.lidar.step options.lidar (.worker (.callbackEnds throws))).map fun lidar =>
        { s with lidar := lidar }
    else none
  | event => (s.lidar.step options.lidar (.worker event)).map fun lidar =>
    { s with lidar := lidar }

/-- The argument of a call of `publish` is the delivered frame, as its bits. -/
def carries (frame : ScanFrame ℚ) : TcpServer.PublishEvent → Bool
  | .call published => decide (published.map floatValue = frame)
  | _ => true

/-- One step of the callback: those of `publish` first, then perception and the brake message. -/
def callbackStep (s : Application) : CallbackEvent → Option Application
  | .publish event =>
    if s.lidar.worker.pc = .inCallback ∧ s.callback = .publish ∧ carries s.lidar.frame event then
      (s.server.step (.publish () event)).map fun server =>
        { s with
          server := server
          callback := if (server.calls ()).pc ≠ .idle then .publish
            else match Node.publishResult event with
              | .ok () => .decide
              | .error _ => .finished true }
    else none
  | .decide accepts =>
    if s.lidar.worker.pc = .inCallback ∧ s.callback = .decide then
      match lidarCallback options.noCan options.perception.stored (.ok ())
          (s.lidar.frame.map Value.finite) with
      | .ok messages => some { s with
          canBus := messages.foldl (fun bus msg => (bus.send msg accepts).1) s.canBus
          callback := .finished false }
      | .error _ => some { s with callback := .finished true }
    else none

/-- One step of the process, which has none left once it is terminated. -/
def step (s : Application) (a : Action) : Option Application :=
  if s.pc = .terminated ∨ s.server.owner.pc = .terminated ∨ s.lidar.owner.pc = .terminated then
    none
  else match a with
    | .main event => s.mainStep options event
    | .acquisition event => s.acquisitionStep options event
    | .callback event => s.callbackStep options event
    | .io event => (s.server.step (.io event)).map fun server => { s with server := server }

end Application

end AebNode
