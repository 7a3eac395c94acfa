import AebNode.Machine
import AebNode.RpLidarDevice

/-! The lidar as interleaved steps: the acquisition thread, and the owner that starts and stops
it. A step is one atomic load or store, one section under a mutex, one end of a call of the
consumer, or one move of the condition variable; what only the stepping thread can see rides
along with it. -/
namespace AebNode

namespace Lidar

structure Stats where
  framesDelivered : ℕ := 0
  readErrors : ℕ := 0
  connects : ℕ := 0
  emptyFrames : ℕ := 0
  lastFrameUs : UInt64 := 0
  deriving DecidableEq, Repr

def maxConsecutiveGrabFailures : ℕ := 5

/-- A reading of the steady clock: nanoseconds since boot in a signed 64-bit count. -/
abbrev SteadyTime := Fin (2 ^ 63)

def nowMicros (now : SteadyTime) : UInt64 := .ofNat (now.val / 1000)

inductive WorkerPc
  | loopHead
  | acquire
  | setGrabError
  | countEmpty
  | deliver
  | inCallback
  | countThrow
  | countDelivered
  | countFailure
  | closeLost
  | checkStop
  | testPredicate
  | block
  | blocked
  | testAfterTimeout
  | reopen
  | countConnect
  | setOpenError
  | closeOnExit
  | exitRunning
  | exited
  deriving DecidableEq, Repr

/-- The acquisition thread: its place in `run` and the locals of the functions it is in. -/
structure Worker where
  pc : WorkerPc := .exited
  consecutiveFailures : ℕ := 0
  error : String := ""
  reopenNext : Bool := true
  deriving DecidableEq, Repr

/-- Where the thread goes on after a back-off: that before a reopening or after a failed one. -/
def Worker.afterBackOff (worker : Worker) : WorkerPc :=
  if worker.reopenNext then .reopen else .loopHead

inductive OwnerPc
  | idle
  | stopNotify
  | stopJoin
  | stopClose
  | stopClearRunning
  | startClearStop
  | startOpen
  | startCountConnect
  | startSetRunning
  | startSpawn
  | startAssign
  | startOpenError
  | startSetError
  | spawnClearRunning
  | spawnClose
  | terminated
  deriving DecidableEq, Repr

/-- The thread that calls `start` and `stop`, one call at a time. -/
structure Owner (κ : Type*) where
  pc : OwnerPc := .idle
  callback : Option κ := none
  error : String := ""

end Lidar

open Lidar

/-- The driver; `κ` tells one callback from another. -/
structure Lidar (κ : Type*) where
  device : RpLidarDevice := {}
  callback : Option κ := none
  joinable : Bool := false
  stopRequested : Bool := false
  running : Bool := false
  stats : Stats := {}
  lastError : String := ""
  frame : ScanFrame ℚ := {}
  nextSequence : UInt32 := 0
  worker : Worker := {}
  owner : Owner κ := {}

namespace Lidar

inductive WorkerEvent
  | loadStop
  | acquire (sdk : Revolution)
  | setError
  | countEmpty
  | deliver (now : SteadyTime)
  | callbackEnds (throws : Bool)
  | countThrow
  | countDelivered
  | countFailure
  | closeLost
  | checkStop
  | testPredicate
  | block
  | wakeSpuriously
  | timeOut
  | testAfterTimeout
  | reopen (sdk : BringUp)
  | countConnect
  | closeOnExit
  | exitRunning
  deriving DecidableEq, Repr

inductive OwnerEvent (κ : Type*)
  | stop
  | notify
  | join
  | close
  | clearRunning
  | start (callback : Option κ)
  | clearStop
  | open (sdk : BringUp)
  | countConnect
  | setRunning
  | spawn (failure : Option String)
  | assign
  | setError
  deriving DecidableEq, Repr

inductive Action (κ : Type*)
  | worker (event : WorkerEvent)
  | owner (event : OwnerEvent κ)
  deriving DecidableEq, Repr

variable {κ : Type*}

def new : Lidar κ := {}

def setError (s : Lidar κ) (message : String) : Lidar κ :=
  if message.isEmpty then s else { s with lastError := message }

/-- The frame as `deliverFrame` hands it on. -/
def stamped (s : Lidar κ) (now : SteadyTime) : ScanFrame ℚ :=
  { s.frame with sequence := s.nextSequence, timestampUs := nowMicros now }

def goto (s : Lidar κ) (pc : WorkerPc) : Lidar κ := { s with worker := { s.worker with pc := pc } }

/-- The end of a cycle that met no device error. -/
def endCycle (s : Lidar κ) : Lidar κ :=
  { s with worker := { s.worker with pc := .loopHead, consecutiveFailures := 0 } }

def backOff (s : Lidar κ) (reopenNext : Bool) : Lidar κ :=
  { s with worker := { s.worker with pc := .testPredicate, reopenNext := reopenNext } }

variable (config : LidarConfig)

def workerStep (s : Lidar κ) : WorkerEvent → Option (Lidar κ)
  | .loadStop =>
    if s.worker.pc = .loopHead then
      some (s.goto (if s.stopRequested then .closeOnExit else .acquire))
    else none
  | .acquire sdk =>
    if s.worker.pc = .acquire then
      if ¬ s.device.isOpen then some (s.goto .countFailure)
      else
        let grabbed := s.device.grabScan config s.frame.points sdk
        some { s with
          device := grabbed.1
          frame := { s.frame with points := grabbed.2.1 }
          worker := match grabbed.2.2 with
            | .error message => { s.worker with pc := .setGrabError, error := message }
            | .ok () => { s.worker with pc := if grabbed.2.1 = [] then .countEmpty else .deliver } }
    else none
  | .setError =>
    if s.worker.pc = .setGrabError then some ((s.setError s.worker.error).goto .countFailure)
    else if s.worker.pc = .setOpenError then
      some ((s.setError s.worker.error).backOff false)
    else none
  | .countEmpty =>
    if s.worker.pc = .countEmpty then
      some { s with stats := { s.stats with emptyFrames := s.stats.emptyFrames + 1 } }.endCycle
    else none
  -- Calling an empty function would throw as well.
  | .deliver now =>
    if s.worker.pc = .deliver then
      some ({ s with frame := s.stamped now, nextSequence := s.nextSequence + 1 }.goto
        (if s.callback.isSome then .inCallback else .countThrow))
    else none
  | .callbackEnds throws =>
    if s.worker.pc = .inCallback then
      some (s.goto (if throws then .countThrow else .countDelivered))
    else none
  | .countThrow =>
    if s.worker.pc = .countThrow then
      some ({ s with stats := { s.stats with readErrors := s.stats.readErrors + 1 } }.goto
        .countDelivered)
    else none
  | .countDelivered =>
    if s.worker.pc = .countDelivered then
      some { s with stats := { s.stats with
        framesDelivered := s.stats.framesDelivered + 1
        lastFrameUs := s.frame.timestampUs } }.endCycle
    else none
  | .countFailure =>
    if s.worker.pc = .countFailure then
      let failures := s.worker.consecutiveFailures + 1
      some { s with
        stats := { s.stats with readErrors := s.stats.readErrors + 1 }
        worker := if failures < maxConsecutiveGrabFailures then
            { s.worker with pc := .loopHead, consecutiveFailures := failures }
          else { s.worker with pc := .closeLost, consecutiveFailures := 0 } }
    else none
  | .closeLost =>
    if s.worker.pc = .closeLost then
      some ({ s with device := s.device.close }.goto .checkStop)
    else none
  | .checkStop =>
    if s.worker.pc = .checkStop then
      some (if ¬ config.autoReconnect ∨ s.stopRequested then s.goto .closeOnExit
        else s.backOff true)
    else none
  -- The mutex of the wait is the thread's own: no other thread ever takes it.
  | .testPredicate =>
    if s.worker.pc = .testPredicate then
      some (s.goto (if s.stopRequested then s.worker.afterBackOff else .block))
    else none
  | .block =>
    if s.worker.pc = .block then some (s.goto .blocked) else none
  | .wakeSpuriously =>
    if s.worker.pc = .blocked then some (s.goto .testPredicate) else none
  | .timeOut =>
    if s.worker.pc = .blocked then some (s.goto .testAfterTimeout) else none
  | .testAfterTimeout =>
    if s.worker.pc = .testAfterTimeout then some (s.goto s.worker.afterBackOff) else none
  | .reopen sdk =>
    if s.worker.pc = .reopen then
      let opened := s.device.open config sdk
      some { s with
        device := opened.1
        worker := match opened.2 with
          | .ok () => { s.worker with pc := .countConnect }
          | .error message => { s.worker with pc := .setOpenError, error := message } }
    else none
  | .countConnect =>
    if s.worker.pc = .countConnect then
      some ({ s with
        stats := { s.stats with connects := s.stats.connects + 1 }
        lastError := "" }.goto .loopHead)
    else none
  | .closeOnExit =>
    if s.worker.pc = .closeOnExit then
      some ({ s with device := s.device.close }.goto .exitRunning)
    else none
  | .exitRunning =>
    if s.worker.pc = .exitRunning then some ({ s with running := false }.goto .exited)
    else none

def ownerStep (s : Lidar κ) : OwnerEvent κ → Option (Lidar κ)
  | .stop =>
    if s.owner.pc = .idle then
      some { s with stopRequested := true, owner := { pc := .stopNotify } }
    else none
  | .notify =>
    if s.owner.pc = .stopNotify then
      some { s with
        worker := if s.worker.pc = .blocked then { s.worker with pc := .testPredicate }
          else s.worker
        owner := { pc := .stopJoin } }
    else none
  | .join =>
    if s.owner.pc = .stopJoin ∧ (s.joinable = true → s.worker.pc = .exited) then
      some { s with joinable := false, owner := { pc := .stopClose } }
    else none
  | .close =>
    if s.owner.pc = .stopClose then
      some { s with device := s.device.close, owner := { pc := .stopClearRunning } }
    else if s.owner.pc = .spawnClose then
      some { s with
        device := s.device.close
        callback := none
        owner := { s.owner with pc := .startSetError } }
    else none
  | .clearRunning =>
    if s.owner.pc = .stopClearRunning then
      some { s with running := false, callback := none, owner := {} }
    else if s.owner.pc = .spawnClearRunning then
      some { s with running := false, owner := { s.owner with pc := .spawnClose } }
    else none
  | .start callback =>
    if s.owner.pc = .idle then
      some { s with owner :=
        if callback.isNone then
          { pc := .startSetError, error := "start() requires a non-empty callback" }
        else if s.running then
          { pc := .startSetError, error := "start() called while already running" }
        else { pc := .startClearStop, callback := callback } }
    else none
  | .clearStop =>
    if s.owner.pc = .startClearStop then
      some { s with
        stopRequested := false
        callback := s.owner.callback
        owner := { pc := .startOpen } }
    else none
  | .open sdk =>
    if s.owner.pc = .startOpen then
      let opened := s.device.open config sdk
      some { s with
        device := opened.1
        owner := match opened.2 with
          | .ok () => { pc := .startCountConnect }
          | .error message => { pc := .startOpenError, error := message } }
    else none
  | .countConnect =>
    if s.owner.pc = .startCountConnect then
      some { s with
        stats := { s.stats with connects := s.stats.connects + 1 }
        lastError := ""
        owner := { pc := .startSetRunning } }
    else none
  | .setRunning =>
    if s.owner.pc = .startSetRunning then
      some { s with running := true, owner := { pc := .startSpawn } }
    else none
  | .spawn failure =>
    if s.owner.pc = .startSpawn then
      some (match failure with
        | some what => { s with owner :=
            { pc := .spawnClearRunning
              error := "failed to spawn acquisition thread: " ++ what } }
        | none => { s with worker := { pc := .loopHead }, owner := { pc := .startAssign } })
    else none
  -- Assigning to a thread that was never joined ends the program.
  | .assign =>
    if s.owner.pc = .startAssign then
      some (if s.joinable then { s with owner := { pc := .terminated } }
        else { s with joinable := true, owner := {} })
    else none
  | .setError =>
    if s.owner.pc = .startSetError then some { s.setError s.owner.error with owner := {} }
    else if s.owner.pc = .startOpenError then
      some { s.setError s.owner.error with callback := none, owner := {} }
    else none

/-- One step of the process, which has none left once it is terminated. -/
def step (s : Lidar κ) (a : Action κ) : Option (Lidar κ) :=
  if s.owner.pc = .terminated then none
  else match a with
    | .worker event => s.workerStep config event
    | .owner event => s.ownerStep config event

/-! Undisturbed stretches of a run, for use in examples. -/

def goodBringUp : BringUp :=
  ⟨true, true, ⟨true, .ok⟩, ⟨true, .ok⟩, ⟨true, .ok⟩, ⟨true, .ok⟩⟩

def startActions (callback : κ) : List (Action κ) :=
  [.owner (.start (some callback)), .owner .clearStop, .owner (.open goodBringUp),
    .owner .countConnect, .owner .setRunning, .owner (.spawn none), .owner .assign]

def deliverActions (sdk : Revolution) (now : SteadyTime) (throws : Bool) : List (Action κ) :=
  [.worker .loadStop, .worker (.acquire sdk), .worker (.deliver now),
    .worker (.callbackEnds throws)] ++
  (if throws then [.worker .countThrow] else []) ++ [.worker .countDelivered]

/-- `stop` while the thread is at the head of its loop. -/
def stopActions : List (Action κ) :=
  [.owner .stop, .owner .notify, .worker .loadStop, .worker .closeOnExit, .worker .exitRunning,
    .owner .join, .owner .close, .owner .clearRunning]

end Lidar

end AebNode
