import AebNode.OwnershipLedger
import AebNode.ServerCounters

/-! The descriptors of the server: the ends of the pipe, the listening socket and the sockets of
its clients. The system calls that hand one out or close one run along with the step of the
server they belong to. -/
namespace AebNode
open Ledger Machine WakePipe

/-- The variables of type `FileDescriptor` that outlive a step. -/
inductive FileDescriptor
  | readEnd
  | writeEnd
  | listenFd
  | accepted
  | socket
  deriving DecidableEq, Repr

instance : Fintype FileDescriptor where
  elems := {.readEnd, .writeEnd, .listenFd, .accepted, .socket}
  complete x := by cases x <;> simp

/-- What the two calls of `fcntl` report. -/
structure FcntlCalls where
  getFlags : Bool := true
  setFlags : Bool := true
  deriving DecidableEq, Repr

def setNonBlocking (sys : FcntlCalls) : Bool := if ¬ sys.getFlags then false else sys.setFlags

/-- What the system calls of `WakePipe::open` report. -/
structure PipeCalls where
  pipe : Bool := true
  readEnd : FcntlCalls := {}
  writeEnd : FcntlCalls := {}
  deriving DecidableEq, Repr

/-- What the system calls of `makeListenSocket` report. -/
structure ListenCalls where
  socket : Bool := true
  setsockopt : Bool := true
  fcntl : FcntlCalls := {}
  inetPton : Bool := true
  bind : Bool := true
  listen : Bool := true
  deriving DecidableEq, Repr

abbrev Descriptors := Holdings FileDescriptor

namespace Descriptors

def openWake (d : Descriptors) (sys : PipeCalls) : Descriptors × Bool :=
  if ¬ sys.pipe then (d, false)
  else
    let readEnd := d.log.length
    let d := d.obtain
    let writeEnd := d.log.length
    let d := d.obtain
    -- On failure the two locals are destroyed, the younger one first.
    if ¬ setNonBlocking sys.readEnd ∨ ¬ setNonBlocking sys.writeEnd then
      ((d.release writeEnd).release readEnd, false)
    else ((d.assign .readEnd (some readEnd)).assign .writeEnd (some writeEnd), true)

/-- `WakePipe::close`, but for its store to the flag. -/
def closeWake (d : Descriptors) : Descriptors := (d.reset .readEnd).reset .writeEnd

/-- The descriptor `makeListenSocket` returns, if any; at every early return it is closed. -/
def makeListenSocket (d : Descriptors) (sys : ListenCalls) : Descriptors × Option ℕ :=
  if ¬ sys.socket then (d, none)
  else
    let fd := d.log.length
    let d := d.obtain
    if ¬ sys.setsockopt then (d.release fd, none)
    else if ¬ setNonBlocking sys.fcntl then (d.release fd, none)
    else if ¬ sys.inetPton then (d.release fd, none)
    else if ¬ sys.bind then (d.release fd, none)
    else if ¬ sys.listen then (d.release fd, none)
    else (d, some fd)

/-- The assignment to `listen_fd` in `start`, and whether it is valid then. -/
def listen (d : Descriptors) (sys : ListenCalls) : Descriptors × Bool :=
  let made := d.makeListenSocket sys
  let d := made.1.assign .listenFd made.2
  (d, (d.owned .listenFd).isSome)

variable {ι : Type*}

/-- What the other steps of the server do to the descriptors. -/
def follow (d : Descriptors) (s : TcpServer ι) : TcpServer.Action ι → Descriptors
  | .owner .resetEnds =>
    -- `stop` closes the listening socket before the pipe.
    if s.owner.pc = .stopResetEnds then closeWake (d.reset .listenFd) else d.closeWake
  | .owner .clearRunning =>
    -- As `start` does when there is no thread.
    if s.owner.pc = .spawnClearRunning then d.reset .listenFd else d
  | .io (.accept .connected) => d.obtain.assign .accepted (some d.log.length)
  | .io (.accept .notNonBlocking) => d.obtain.release d.log.length
  | .io .install => (d.relinquish .accepted).assign .socket (d.owned .accepted)
  | .io .closeSession => d.reset .socket
  | _ => d

/-! Each of them keeps the account. -/

theorem openWake_sound {d : Descriptors} (h : d.Sound []) (sys : PipeCalls) :
    (d.openWake sys).1.Sound [] := by
  have hboth := h.obtain.obtain
  unfold openWake
  split_ifs
  · exact hboth.release.release
  · apply Holdings.Sound.assign
    apply Holdings.Sound.assign
    exact ⟨hboth.balanced.perm (.swap ..), hboth.numbered⟩
  · exact h

theorem openWake_owned (d : Descriptors) (sys : PipeCalls) :
    (d.openWake sys).2 = false ∧ (d.openWake sys).1.owned = d.owned ∨
      (d.openWake sys).2 = true ∧ ∃ readEnd writeEnd : ℕ, (d.openWake sys).1.owned =
        Function.update (Function.update d.owned .readEnd (some readEnd)) .writeEnd
          (some writeEnd) := by
  unfold openWake
  split_ifs
  · exact Or.inl ⟨rfl, rfl⟩
  · exact Or.inr ⟨rfl, d.log.length, d.obtain.log.length, by simp⟩
  · exact Or.inl ⟨rfl, rfl⟩

theorem closeWake_sound {d : Descriptors} (h : d.Sound []) : d.closeWake.Sound [] :=
  (h.reset .readEnd).reset .writeEnd

theorem makeListenSocket_sound {d : Descriptors} (h : d.Sound []) (sys : ListenCalls) :
    (d.makeListenSocket sys).1.Sound (d.makeListenSocket sys).2.toList := by
  have hclosed := h.obtain.release
  unfold makeListenSocket
  split_ifs
  · exact h.obtain
  all_goals first | exact hclosed | exact h

theorem listen_owned (d : Descriptors) (sys : ListenCalls) :
    (d.listen sys).1.owned = Function.update d.owned .listenFd (d.makeListenSocket sys).2 ∧
      (d.listen sys).2 = (d.makeListenSocket sys).2.isSome := by
  have hmade : (d.makeListenSocket sys).1.owned = d.owned := by
    unfold makeListenSocket
    split_ifs <;> rfl
  simp [listen, hmade]

theorem listen_sound {d : Descriptors} (h : d.Sound []) (sys : ListenCalls) :
    (d.listen sys).1.Sound [] := by
  have hmade := makeListenSocket_sound h sys
  rw [← List.append_nil (Option.toList _)] at hmade
  exact hmade.assign .listenFd

theorem follow_sound {d : Descriptors} (h : d.Sound []) (s : TcpServer ι)
    (a : TcpServer.Action ι) : (d.follow s a).Sound [] := by
  unfold follow
  split
  case h_1 =>
    split_ifs
    · exact closeWake_sound (h.reset .listenFd)
    · exact closeWake_sound h
  case h_2 =>
    split_ifs
    · exact h.reset .listenFd
    · exact h
  case h_3 =>
    apply Holdings.Sound.assign
    exact h.obtain
  case h_4 => exact h.obtain.release
  case h_5 => exact (h.relinquish .accepted).assign .socket
  case h_6 => exact h.reset .socket
  case h_7 => exact h

theorem follow_listenFd {d : Descriptors} (s : TcpServer ι) (a : TcpServer.Action ι)
    (h : d.owned .listenFd = none) : (d.follow s a).owned .listenFd = none := by
  unfold follow closeWake
  split
  case h_1 => split_ifs <;> simp [h]
  case h_2 => split_ifs <;> simp [h]
  all_goals simp [h]

end Descriptors

namespace TcpServer
variable {ι : Type*}

@[simp] def OwnerPc.pipeClosed : OwnerPc → Bool
  | .stopClearPending | .stopClearConnected | .stopClearRunning | .startClearPending => true
  | _ => false

@[simp] def OwnerPc.unlistened : OwnerPc → Bool
  | .stopClearPending | .stopClearConnected | .stopClearRunning => true
  | _ => false

@[simp] def OwnerPc.failing : OwnerPc → Bool
  | .startResetEnds | .startClearPending => true
  | _ => false

/-- Apart from three steps the I/O thread keeps its sockets, and whether it is about to adopt
the accepted one. -/
theorem ioStep_keeps_sockets {s t : TcpServer ι} {event : IoEvent} (h : s.ioStep event = some t)
    (haccept : event ≠ .accept .connected) (hinstall : event ≠ .install)
    (hclose : event ≠ .closeSession) :
    t.wake.valid = s.wake.valid ∧ t.session.valid = s.session.valid ∧
      t.io.accepted = s.io.accepted ∧ (s.io.adopts → t.io.adopts) := by
  have hplain : s.io.pc ≠ .install → s.io.pc.closing = false → ∀ {p : Prop}, s.io.adopts → p := by
    rintro hpc hclosing p (hadopts | ⟨hadopts, -⟩)
    · exact absurd hadopts hpc
    · rw [hclosing] at hadopts
      cases hadopts
  cases event <;> simp only [ioStep, Option.ite_none_right_eq_some, Option.some.injEq,
    Option.map_eq_some_iff] at h
  case install => exact absurd rfl hinstall
  case closeSession => exact absurd rfl hclose
  case loadStop =>
    rcases h with ⟨hpc, rfl⟩
    cases hstop : s.stopRequested <;>
      exact ⟨rfl, rfl, by simp [callEndSession], hplain (by simp [hpc]) (by simp [hpc])⟩
  case pollFails interrupted =>
    rcases h with ⟨hpc, rfl⟩
    cases interrupted <;> exact ⟨rfl, rfl, rfl, hplain (by simp [hpc]) (by simp [hpc])⟩
  case pollReturns =>
    rcases h with ⟨⟨hpc, -⟩, rfl⟩
    exact ⟨rfl, rfl, rfl, hplain (by simp [hpc]) (by simp [hpc])⟩
  case drain =>
    rcases h with ⟨hpc, ⟨w, next⟩, hdrain, rfl⟩
    refine ⟨drainStep_valid hdrain, rfl, ?_, hplain (by simp [hpc]) (by simp [hpc])⟩
    cases next <;> rfl
  case clientEvents =>
    rcases h with ⟨hpc, rfl⟩
    refine ⟨rfl, rfl, ?_, hplain (by simp [hpc]) (by simp [hpc])⟩
    dsimp only
    split_ifs <;> rfl
  case recv result =>
    rcases h with ⟨hpc, rfl⟩
    cases result <;> exact ⟨rfl, rfl, rfl, hplain (by simp [hpc]) (by simp [hpc])⟩
  case accept result =>
    rcases h with ⟨hpc, h⟩
    cases result with
    | connected => exact absurd rfl haccept
    | interrupted | notNonBlocking | none =>
      rcases Option.some.inj h with rfl
      exact ⟨rfl, rfl, rfl, hplain (by simp [hpc]) (by simp [hpc])⟩
  case service =>
    rcases h with ⟨hpc, rfl⟩
    split_ifs <;> exact ⟨rfl, rfl, rfl, hplain (by simp [hpc]) (by simp [hpc])⟩
  case pump =>
    rcases h with ⟨hpc, h⟩
    split_ifs at h <;> rcases Option.some.inj h with rfl <;>
      exact ⟨rfl, rfl, rfl, hplain (by simp [hpc]) (by simp [hpc])⟩
  case send result =>
    rcases h with ⟨hpc, h⟩
    cases result <;> simp only [Option.ite_none_right_eq_some, Option.some.injEq] at h
    case written =>
      rcases h with ⟨-, rfl⟩
      exact ⟨rfl, rfl, rfl, hplain (by simp [hpc]) (by simp [hpc])⟩
    all_goals
      subst h
      exact ⟨rfl, rfl, rfl, hplain (by simp [hpc]) (by simp [hpc])⟩
  case countProgress =>
    rcases h with ⟨hpc, rfl⟩
    refine ⟨rfl, rfl, ?_, hplain (by simp [hpc]) (by simp [hpc])⟩
    cases hf : s.io.failed <;> rfl
  case clearConnected =>
    rcases h with ⟨hpc, rfl⟩
    refine ⟨rfl, rfl, rfl, ?_⟩
    rintro (hadopts | ⟨-, hback⟩)
    · simp [hpc] at hadopts
    · exact Or.inr ⟨rfl, hback⟩
  case countDisconnect =>
    rcases h with ⟨hpc, rfl⟩
    refine ⟨rfl, rfl, rfl, ?_⟩
    rintro (hadopts | ⟨-, hback⟩)
    · simp [hpc] at hadopts
    · exact Or.inl hback
  all_goals
    rcases h with ⟨hpc, rfl⟩
    exact ⟨rfl, rfl, rfl, hplain (by simp [hpc]) (by simp [hpc])⟩

end TcpServer

structure NetworkLayer (ι : Type*) where
  server : TcpServer ι
  descriptors : Descriptors := {}

/-- A step of the server; the two that hand out the descriptors of the owner come with what
their system calls report. -/
inductive NetworkAction (ι : Type*)
  | openWake (sys : PipeCalls)
  | listen (sys : ListenCalls)
  | server (a : TcpServer.Action ι)

namespace NetworkLayer
open TcpServer

variable {ι : Type*} [DecidableEq ι]

def new (capacity : ℕ) : NetworkLayer ι := { server := .new capacity }

def step (s : NetworkLayer ι) : NetworkAction ι → Option (NetworkLayer ι)
  | .openWake sys =>
    let opened := s.descriptors.openWake sys
    (s.server.step (.owner (.openWake opened.2))).map fun server => ⟨server, opened.1⟩
  | .listen sys =>
    let listening := s.descriptors.listen sys
    (s.server.step (.owner (.listen listening.2))).map fun server => ⟨server, listening.1⟩
  | .server (.owner (.openWake _)) | .server (.owner (.listen _)) => none
  | .server a =>
    (s.server.step a).map fun server => ⟨server, s.descriptors.follow s.server a⟩

theorem step_server {s t : NetworkLayer ι} {a : Action ι} (h : s.step (.server a) = some t) :
    (∀ succeeds, a ≠ .owner (.openWake succeeds)) ∧ (∀ succeeds, a ≠ .owner (.listen succeeds)) ∧
      s.server.step a = some t.server ∧ t.descriptors = s.descriptors.follow s.server a := by
  unfold step at h
  split at h
  case h_1 heq => cases heq
  case h_2 heq => cases heq
  case h_3 => cases h
  case h_4 => cases h
  case h_5 b hopen hlisten heq =>
    rcases NetworkAction.server.inj heq with rfl
    rcases Option.map_eq_some_iff.mp h with ⟨server, hserver, rfl⟩
    refine ⟨?_, ?_, hserver, rfl⟩
    · rintro succeeds rfl
      exact hopen succeeds rfl
    · rintro succeeds rfl
      exact hlisten succeeds rfl

theorem step_projects {s t : NetworkLayer ι} {a : NetworkAction ι} (h : s.step a = some t) :
    ∃ b, s.server.step b = some t.server := by
  cases a with
  | openWake sys =>
    rcases Option.map_eq_some_iff.mp h with ⟨server, hserver, rfl⟩
    exact ⟨_, hserver⟩
  | listen sys =>
    rcases Option.map_eq_some_iff.mp h with ⟨server, hserver, rfl⟩
    exact ⟨_, hserver⟩
  | server b => exact ⟨b, (step_server h).2.2.1⟩

theorem exec_projects {s t : NetworkLayer ι} {as : List (NetworkAction ι)}
    (h : exec step s as = some t) : ∃ bs, exec TcpServer.step s.server bs = some t.server := by
  induction as generalizing s with
  | nil =>
    rcases Option.some.inj h with rfl
    exact ⟨[], rfl⟩
  | cons a as ih =>
    rcases exec_cons.mp h with ⟨u, hu, ht⟩
    rcases step_projects hu with ⟨b, hb⟩
    rcases ih ht with ⟨bs, hbs⟩
    exact ⟨b :: bs, exec_cons.mpr ⟨u.server, hb, hbs⟩⟩

/-- What holds of the descriptors in every reachable state. -/
structure Tracked (s : NetworkLayer ι) : Prop where
  sound : s.descriptors.Sound []
  readEnd : (s.descriptors.owned .readEnd).isSome = s.server.wake.valid
  writeEnd : (s.descriptors.owned .writeEnd).isSome = s.server.wake.valid
  socket : (s.descriptors.owned .socket).isSome = s.server.session.valid
  accepted : (s.descriptors.owned .accepted).isSome = s.server.io.accepted.isSome
  adopted : s.server.io.accepted.isSome = true → s.server.io.adopts
  closed : s.server.owner.pc.pipeClosed = true → s.server.wake.valid = false
  stopped : s.server.owner.pc.unlistened = true → s.descriptors.owned .listenFd = none

omit [DecidableEq ι] in
theorem new_tracked (capacity : ℕ) : Tracked (new capacity : NetworkLayer ι) where
  sound := .new
  readEnd := rfl
  writeEnd := rfl
  socket := rfl
  accepted := rfl
  adopted h := by simp [new, TcpServer.new] at h
  closed _ := rfl
  stopped _ := rfl

omit [DecidableEq ι] in
theorem Tracked.of_server {s : NetworkLayer ι} {server : TcpServer ι} (hs : Tracked s)
    (hwake : server.wake.valid = s.server.wake.valid)
    (hsession : server.session.valid = s.server.session.valid)
    (haccepted : server.io.accepted = s.server.io.accepted)
    (hadopts : s.server.io.adopts → server.io.adopts)
    (hclosed : server.owner.pc.pipeClosed = true → s.server.owner.pc.pipeClosed = true)
    (hstopped : server.owner.pc.unlistened = true → s.server.owner.pc.unlistened = true) :
    Tracked ⟨server, s.descriptors⟩ where
  sound := hs.sound
  readEnd := hs.readEnd.trans hwake.symm
  writeEnd := hs.writeEnd.trans hwake.symm
  socket := hs.socket.trans hsession.symm
  accepted := by rw [haccepted]; exact hs.accepted
  adopted h := by
    rw [haccepted] at h
    exact hadopts (hs.adopted h)
  closed h := hwake.trans (hs.closed (hclosed h))
  stopped h := hs.stopped (hstopped h)

omit [DecidableEq ι] in
theorem accept_tracked {s : NetworkLayer ι} {server : TcpServer ι} (hs : Tracked s)
    (h : s.server.ioStep (.accept .connected) = some server) :
    Tracked ⟨server, s.descriptors.follow s.server (.io (.accept .connected))⟩ := by
  have hsound := Descriptors.follow_sound hs.sound s.server (.io (.accept .connected))
  simp only [ioStep, Option.ite_none_right_eq_some, Option.some.injEq] at h
  rcases h with ⟨-, rfl⟩
  refine ⟨hsound, ?_, ?_, ?_, ?_, fun _ => ?_, hs.closed, ?_⟩
  · simpa [Descriptors.follow] using hs.readEnd
  · simpa [Descriptors.follow] using hs.writeEnd
  · simpa [Descriptors.follow] using hs.socket
  · dsimp only
    split_ifs <;> simp [Descriptors.follow, callEndSession]
  · dsimp only
    split_ifs
    · exact Or.inr ⟨rfl, rfl⟩
    · exact Or.inl rfl
  · simpa [Descriptors.follow] using hs.stopped

omit [DecidableEq ι] in
theorem install_tracked {s : NetworkLayer ι} {server : TcpServer ι} (hs : Tracked s)
    (h : s.server.ioStep .install = some server) :
    Tracked ⟨server, s.descriptors.follow s.server (.io .install)⟩ := by
  have hsound := Descriptors.follow_sound hs.sound s.server (.io .install)
  simp only [ioStep, Option.ite_none_right_eq_some, Option.some.injEq] at h
  rcases h with ⟨-, rfl⟩
  refine ⟨hsound, ?_, ?_, ?_, ?_, by simp, hs.closed, ?_⟩
  · simpa [Descriptors.follow] using hs.readEnd
  · simpa [Descriptors.follow] using hs.writeEnd
  · simpa [Descriptors.follow, ClientSession.valid] using hs.accepted
  · simp [Descriptors.follow]
  · simpa [Descriptors.follow] using hs.stopped

omit [DecidableEq ι] in
theorem closeSession_tracked {s : NetworkLayer ι} {server : TcpServer ι} (hs : Tracked s)
    (h : s.server.ioStep .closeSession = some server) :
    Tracked ⟨server, s.descriptors.follow s.server (.io .closeSession)⟩ := by
  have hsound := Descriptors.follow_sound hs.sound s.server (.io .closeSession)
  simp only [ioStep, Option.ite_none_right_eq_some, Option.some.injEq] at h
  rcases h with ⟨hpc, rfl⟩
  have hback : s.server.io.accepted.isSome = true → s.server.io.returnTo = .install := by
    intro hsome
    rcases hs.adopted hsome with hinstall | ⟨-, hback⟩
    · rw [hpc] at hinstall
      cases hinstall
    · exact hback
  cases hvalid : s.server.session.valid with
  | true =>
    refine ⟨hsound, ?_, ?_, ?_, ?_, fun hsome => Or.inr ⟨rfl, hback hsome⟩, hs.closed, ?_⟩
    · simpa [Descriptors.follow] using hs.readEnd
    · simpa [Descriptors.follow] using hs.writeEnd
    · simp [Descriptors.follow, ClientSession.close, ClientSession.valid]
    · simpa [Descriptors.follow] using hs.accepted
    · simpa [Descriptors.follow] using hs.stopped
  | false =>
    refine ⟨hsound, ?_, ?_, ?_, ?_, fun hsome => Or.inl (hback hsome), hs.closed, ?_⟩
    · simpa [Descriptors.follow] using hs.readEnd
    · simpa [Descriptors.follow] using hs.writeEnd
    · simpa [Descriptors.follow] using hvalid
    · simpa [Descriptors.follow] using hs.accepted
    · simpa [Descriptors.follow] using hs.stopped

omit [DecidableEq ι] in
theorem ioStep_tracked {s : NetworkLayer ι} {server : TcpServer ι} {event : IoEvent}
    (hs : Tracked s) (h : s.server.ioStep event = some server) :
    Tracked ⟨server, s.descriptors.follow s.server (.io event)⟩ := by
  by_cases haccept : event = .accept .connected
  · subst haccept
    exact accept_tracked hs h
  by_cases hinstall : event = .install
  · subst hinstall
    exact install_tracked hs h
  by_cases hclose : event = .closeSession
  · subst hclose
    exact closeSession_tracked hs h
  rcases ioStep_keeps_sockets h haccept hinstall hclose with
    ⟨hwake, hsession, haccepted, hadopts⟩
  have howner := (ioStep_threads h).2.1
  have hkept := hs.of_server hwake hsession haccepted hadopts (by simp [howner]) (by simp [howner])
  have hsame : (s.descriptors.follow s.server (.io event)).owned = s.descriptors.owned := by
    cases event with
    | accept result => cases result <;> simp_all [Descriptors.follow]
    | _ => simp_all [Descriptors.follow]
  refine ⟨Descriptors.follow_sound hs.sound s.server (.io event), ?_, ?_, ?_, ?_, hkept.adopted,
    hkept.closed, ?_⟩
  all_goals rw [hsame]
  · exact hkept.readEnd
  · exact hkept.writeEnd
  · exact hkept.socket
  · exact hkept.accepted
  · exact hkept.stopped

omit [DecidableEq ι] in
theorem Tracked.of_owner {s : NetworkLayer ι} {server : TcpServer ι} {d : Descriptors}
    (hs : Tracked s) (hsound : d.Sound []) (hsession : server.session = s.server.session)
    (hio : server.io = s.server.io) (hsocket : d.owned .socket = s.descriptors.owned .socket)
    (haccepted : d.owned .accepted = s.descriptors.owned .accepted)
    (hreadEnd : (d.owned .readEnd).isSome = server.wake.valid)
    (hwriteEnd : (d.owned .writeEnd).isSome = server.wake.valid)
    (hclosed : server.owner.pc.pipeClosed = true → server.wake.valid = false)
    (hstopped : server.owner.pc.unlistened = true → d.owned .listenFd = none) :
    Tracked ⟨server, d⟩ where
  sound := hsound
  readEnd := hreadEnd
  writeEnd := hwriteEnd
  socket := by rw [hsocket, hsession]; exact hs.socket
  accepted := by rw [haccepted, hio]; exact hs.accepted
  adopted := hio ▸ hs.adopted
  closed := hclosed
  stopped := hstopped

omit [DecidableEq ι] in
theorem openWake_tracked {s : NetworkLayer ι} {server : TcpServer ι} {sys : PipeCalls}
    (hs : Tracked s)
    (h : s.server.ownerStep (.openWake (s.descriptors.openWake sys).2) = some server) :
    Tracked ⟨server, (s.descriptors.openWake sys).1⟩ := by
  have hsound := Descriptors.openWake_sound hs.sound sys
  simp only [ownerStep, Option.ite_none_right_eq_some, Option.some.injEq] at h
  rcases h with ⟨-, rfl⟩
  rcases s.descriptors.openWake_owned sys with
    ⟨hfails, howned⟩ | ⟨hsucceeds, readEnd, writeEnd, howned⟩
  · simp only [hfails, Bool.false_eq_true, if_false]
    exact hs.of_owner hsound rfl rfl (by rw [howned]) (by rw [howned]) (howned ▸ hs.readEnd)
      (howned ▸ hs.writeEnd) (by simp) (by simp)
  · simp only [hsucceeds, if_true]
    exact hs.of_owner hsound rfl rfl (by simp [howned]) (by simp [howned])
      (by simp [howned, WakePipe.opened]) (by simp [howned, WakePipe.opened]) (by simp) (by simp)

omit [DecidableEq ι] in
theorem listen_tracked {s : NetworkLayer ι} {server : TcpServer ι} {sys : ListenCalls}
    (hs : Tracked s)
    (h : s.server.ownerStep (.listen (s.descriptors.listen sys).2) = some server) :
    Tracked ⟨server, (s.descriptors.listen sys).1⟩ := by
  have hsound := Descriptors.listen_sound hs.sound sys
  have howned := (s.descriptors.listen_owned sys).1
  simp only [ownerStep, Option.ite_none_right_eq_some, Option.some.injEq] at h
  rcases h with ⟨-, rfl⟩
  refine hs.of_owner hsound rfl rfl (by simp [howned]) (by simp [howned]) ?_ ?_ ?_ ?_
  · simpa [howned] using hs.readEnd
  · simpa [howned] using hs.writeEnd
  · dsimp only
    split_ifs <;> simp
  · dsimp only
    split_ifs <;> simp

omit [DecidableEq ι] in
theorem ownerStep_tracked {s : NetworkLayer ι} {server : TcpServer ι} {event : OwnerEvent}
    (hs : Tracked s) (hlife : Lifecycle s.server)
    (hopen : ∀ succeeds, Action.owner event ≠ (.owner (.openWake succeeds) : Action ι))
    (hlisten : ∀ succeeds, Action.owner event ≠ (.owner (.listen succeeds) : Action ι))
    (h : s.server.ownerStep event = some server) :
    Tracked ⟨server, s.descriptors.follow s.server (.owner event)⟩ := by
  have hsound := Descriptors.follow_sound hs.sound s.server (.owner event)
  cases event with
  | openWake succeeds => exact absurd rfl (hopen succeeds)
  | listen succeeds => exact absurd rfl (hlisten succeeds)
  | signal event =>
    simp only [ownerStep, Option.ite_none_right_eq_some, Option.map_eq_some_iff] at h
    rcases h with ⟨hpc, ⟨w, next⟩, hsignal, rfl⟩
    refine hs.of_server (signalStep_valid hsignal) rfl rfl id ?_ ?_
    · cases next <;> simp [hpc]
    · cases next <;> simp [hpc]
  | resetEnds =>
    simp only [ownerStep] at h
    split_ifs at h with hstop hstart <;> rcases Option.some.inj h with rfl
    · refine hs.of_owner hsound rfl rfl ?_ ?_ ?_ ?_ ?_ ?_ <;>
        simp [Descriptors.follow, Descriptors.closeWake, WakePipe.resetEnds, hstop]
    · refine hs.of_owner hsound rfl rfl ?_ ?_ ?_ ?_ ?_ ?_ <;>
        simp [Descriptors.follow, Descriptors.closeWake, WakePipe.resetEnds, hstart]
  | clearPending =>
    simp only [ownerStep] at h
    split_ifs at h with hstop hstart <;> rcases Option.some.inj h with rfl
    · exact hs.of_server rfl rfl rfl id (by simp [hstop]) (by simp [hstop])
    · exact hs.of_server rfl rfl rfl id (by simp) (by simp)
  | clearRunning =>
    simp only [ownerStep] at h
    split_ifs at h with hstop hspawn <;> rcases Option.some.inj h with rfl
    · have hsame : s.descriptors.follow s.server (.owner .clearRunning) = s.descriptors := by
        simp [Descriptors.follow, hstop]
      rw [hsame]
      exact hs.of_server rfl rfl rfl id (by simp) (by simp)
    · refine hs.of_owner hsound rfl rfl ?_ ?_ ?_ ?_ ?_ ?_
      · simp [Descriptors.follow, hspawn]
      · simp [Descriptors.follow, hspawn]
      · simpa [Descriptors.follow, hspawn] using hs.readEnd
      · simpa [Descriptors.follow, hspawn] using hs.writeEnd
      · simp
      · simp
  | start =>
    simp only [ownerStep, Option.ite_none_right_eq_some, Option.some.injEq] at h
    rcases h with ⟨hpc, rfl⟩
    refine hs.of_server rfl rfl rfl id ?_ ?_
    · dsimp only
      split_ifs <;> simp
    · dsimp only
      split_ifs <;> simp
  | spawn succeeds =>
    simp only [ownerStep, Option.ite_none_right_eq_some, Option.some.injEq] at h
    rcases h with ⟨hpc, rfl⟩
    have hgone : ¬ s.server.io.adopts := by
      simp [IoThread.adopts, hlife.exited_of_place (by simp [hpc])]
    have hnone : s.server.io.accepted = none := by
      rw [← Option.not_isSome_iff_eq_none]
      exact fun hsome => hgone (hs.adopted hsome)
    split_ifs
    · exact hs.of_server rfl rfl rfl id (by simp) (by simp)
    · exact hs.of_server rfl rfl hnone.symm (fun h => absurd h hgone) (by simp) (by simp)
    · exact hs.of_server rfl rfl rfl id (by simp) (by simp)
  | stop | clearStop | setRunning =>
    simp only [ownerStep, Option.ite_none_right_eq_some, Option.some.injEq] at h
    rcases h with ⟨-, rfl⟩
    exact hs.of_server rfl rfl rfl id (by simp) (by simp)
  | join | clearConnected =>
    simp only [ownerStep, Option.ite_none_right_eq_some, Option.some.injEq] at h
    rcases h with ⟨hpc, rfl⟩
    exact hs.of_server rfl rfl rfl id (by simp [hpc]) (by simp [hpc])

theorem step_tracked {s t : NetworkLayer ι} {a : NetworkAction ι} (hs : Tracked s)
    (hlife : Lifecycle s.server) (h : s.step a = some t) : Tracked t := by
  cases a with
  | openWake sys =>
    rcases Option.map_eq_some_iff.mp h with ⟨server, hserver, rfl⟩
    simp only [TcpServer.step, Option.ite_none_left_eq_some] at hserver
    exact openWake_tracked hs hserver.2
  | listen sys =>
    rcases Option.map_eq_some_iff.mp h with ⟨server, hserver, rfl⟩
    simp only [TcpServer.step, Option.ite_none_left_eq_some] at hserver
    exact listen_tracked hs hserver.2
  | server b =>
    rcases step_server h with ⟨hopen, hlisten, hserver, hfollow⟩
    rcases t with ⟨server, descriptors⟩
    subst hfollow
    simp only [TcpServer.step, Option.ite_none_left_eq_some] at hserver
    cases b with
    | publish p event =>
      rcases publishStep_frame hserver.2 with ⟨hsession, -, hio, howner, -⟩
      exact hs.of_server (publishStep_caller hserver.2).valid (by rw [hsession]) (by rw [hio])
        (by rw [hio]; exact id) (by simp [howner]) (by simp [howner])
    | owner event => exact ownerStep_tracked hs hlife hopen hlisten hserver.2
    | io event => exact ioStep_tracked hs hserver.2

theorem exec_tracked {capacity : ℕ} {as : List (NetworkAction ι)} {s : NetworkLayer ι}
    (h : exec step (new capacity) as = some s) :
    Lifecycle s.server ∧ Seated s.server ∧ Tracked s := by
  have hkeep : ∀ (s : NetworkLayer ι) a t, Lifecycle s.server ∧ Tracked s → s.step a = some t →
      Lifecycle t.server ∧ Tracked t := by
    rintro s a t ⟨hlife, hs⟩ hstep
    rcases step_projects hstep with ⟨b, hb⟩
    exact ⟨step_lifecycle hlife hb, step_tracked hs hlife hstep⟩
  have htracked := exec_invariant hkeep ⟨new_lifecycle capacity, new_tracked capacity⟩ h
  rcases exec_projects h with ⟨bs, hbs⟩
  exact ⟨htracked.1, (exec_counted hbs).2.1, htracked.2⟩

omit [DecidableEq ι] in
/-- Once the thread is gone and the pipe and the listening socket are closed, nothing is open. -/
theorem Tracked.all_closed {s : NetworkLayer ι} (hs : Tracked s) (hseated : Seated s.server)
    (hexited : s.server.io.pc = .exited) (hclosed : s.server.owner.pc.pipeClosed = true)
    (hlisten : s.descriptors.owned .listenFd = none) : ∀ x, s.descriptors.owned x = none := by
  have hwake := hs.closed hclosed
  have hadopts : ¬ s.server.io.adopts := by simp [IoThread.adopts, hexited]
  intro x
  rw [← Option.not_isSome_iff_eq_none]
  cases x with
  | readEnd => simp [hs.readEnd, hwake]
  | writeEnd => simp [hs.writeEnd, hwake]
  | listenFd => simp [hlisten]
  | accepted =>
    rw [hs.accepted]
    exact fun hsome => hadopts (hs.adopted hsome)
  | socket => simp [hs.socket, hseated.detached (by simp [hexited])]

/-! The listening socket of a run that ended by itself. -/

/-- A wake pipe that cannot be made finds no listening socket open. -/
def Unencumbered (s : NetworkLayer ι) : NetworkAction ι → Prop
  | .openWake sys =>
    (s.descriptors.openWake sys).2 = false → s.descriptors.owned .listenFd = none
  | _ => True

instance (s : NetworkLayer ι) : ∀ a, Decidable (Unencumbered s a)
  | .openWake _ => inferInstanceAs (Decidable (_ → _))
  | .listen _ | .server _ => isTrue trivial

omit [DecidableEq ι] in
/-- How the owner comes to give up on `start`. -/
theorem ownerStep_failing {s t : TcpServer ι} {event : OwnerEvent}
    (hopen : ∀ succeeds, Action.owner event ≠ (.owner (.openWake succeeds) : Action ι))
    (hlisten : ∀ succeeds, Action.owner event ≠ (.owner (.listen succeeds) : Action ι))
    (h : s.ownerStep event = some t) (hfails : t.owner.pc.failing = true) :
    s.owner.pc.failing = true ∨ event = .clearRunning ∧ s.owner.pc = .spawnClearRunning := by
  cases event with
  | openWake succeeds => exact absurd rfl (hopen succeeds)
  | listen succeeds => exact absurd rfl (hlisten succeeds)
  | signal event =>
    simp only [ownerStep, Option.ite_none_right_eq_some, Option.map_eq_some_iff] at h
    rcases h with ⟨hpc, ⟨w, next⟩, -, rfl⟩
    cases next <;> simp [hpc] at hfails
  | clearRunning =>
    simp only [ownerStep] at h
    split_ifs at h with hstop hspawn <;> rcases Option.some.inj h with rfl
    · simp at hfails
    · exact Or.inr ⟨rfl, hspawn⟩
  | resetEnds =>
    simp only [ownerStep] at h
    split_ifs at h with hstop hstart <;> rcases Option.some.inj h with rfl
    · simp at hfails
    · exact Or.inl (by simp [hstart])
  | start =>
    simp only [ownerStep, Option.ite_none_right_eq_some, Option.some.injEq] at h
    rcases h with ⟨-, rfl⟩
    dsimp only at hfails
    split_ifs at hfails <;> simp at hfails
  | stop | join | clearPending | clearConnected | clearStop | setRunning | spawn =>
    simp only [ownerStep] at h
    split_ifs at h <;> rcases Option.some.inj h with rfl <;> simp at hfails

theorem step_failing {s t : NetworkLayer ι} {a : NetworkAction ι}
    (hs : s.server.owner.pc.failing = true → s.descriptors.owned .listenFd = none)
    (hok : Unencumbered s a) (h : s.step a = some t) :
    t.server.owner.pc.failing = true → t.descriptors.owned .listenFd = none := by
  intro hfails
  cases a with
  | openWake sys =>
    rcases Option.map_eq_some_iff.mp h with ⟨server, hserver, rfl⟩
    simp only [TcpServer.step, ownerStep, Option.ite_none_left_eq_some,
      Option.ite_none_right_eq_some, Option.some.injEq] at hserver
    rcases hserver with ⟨-, -, rfl⟩
    rcases s.descriptors.openWake_owned sys with ⟨hunmade, howned⟩ | ⟨hmade, -⟩
    · rw [howned]
      exact hok hunmade
    · simp [hmade] at hfails
  | listen sys =>
    rcases Option.map_eq_some_iff.mp h with ⟨server, hserver, rfl⟩
    simp only [TcpServer.step, ownerStep, Option.ite_none_left_eq_some,
      Option.ite_none_right_eq_some, Option.some.injEq] at hserver
    rcases hserver with ⟨-, -, rfl⟩
    rcases s.descriptors.listen_owned sys with ⟨howned, hresult⟩
    cases hmade : (s.descriptors.makeListenSocket sys).2 with
    | some fd => simp [hresult, hmade] at hfails
    | none => simp [howned, hmade]
  | server b =>
    rcases step_server h with ⟨hopen, hlisten, hserver, hfollow⟩
    simp only [TcpServer.step, Option.ite_none_left_eq_some] at hserver
    rw [hfollow]
    cases b with
    | publish p event =>
      rw [(publishStep_frame hserver.2).2.2.2.1] at hfails
      exact Descriptors.follow_listenFd s.server _ (hs hfails)
    | io event =>
      rw [(ioStep_threads hserver.2).2.1] at hfails
      exact Descriptors.follow_listenFd s.server _ (hs hfails)
    | owner event =>
      rcases ownerStep_failing hopen hlisten hserver.2 hfails with hfailing | ⟨rfl, hspawn⟩
      · exact Descriptors.follow_listenFd s.server _ (hs hfailing)
      · simp [Descriptors.follow, hspawn]

def StopReturns (s : NetworkLayer ι) (a : NetworkAction ι) : Prop :=
  a = .server (.owner .clearRunning) ∧ s.server.owner.pc = .stopClearRunning

/-- The step with which `start` returns false, called while the server was not running. -/
def StartFails (s : NetworkLayer ι) (a : NetworkAction ι) : Prop :=
  a = .server (.owner .clearPending) ∧ s.server.owner.pc = .startClearPending

/-- Over every run each descriptor is closed exactly once, unless it is still held, and nothing
else is closed; when `stop` returns nothing is open, nor is it when `start` fails, provided that
no wake pipe failed to be made while an earlier listening socket was open. -/
theorem descriptors_closed (capacity : ℕ) {as : List (NetworkAction ι)} {s : NetworkLayer ι}
    (h : exec step (new capacity) as = some s) :
    (∀ k, .obtained k ∈ s.descriptors.log → s.descriptors.log.count (.released k) =
      if ∃ x, s.descriptors.owned x = some k then 0 else 1) ∧
    (∀ k, .released k ∈ s.descriptors.log → .obtained k ∈ s.descriptors.log) ∧
    (∀ a t, s.step a = some t → StopReturns s a → ∀ x, t.descriptors.owned x = none) ∧
    (Along Unencumbered step (new capacity) as →
      ∀ a t, s.step a = some t → StartFails s a → ∀ x, t.descriptors.owned x = none) := by
  rcases exec_tracked h with ⟨hlife, hseated, hs⟩
  refine ⟨fun k => hs.sound.released_count, fun k => hs.sound.balanced.obtained_of_released,
    ?_, fun hok => ?_⟩
  · rintro a t hstep ⟨rfl, hpc⟩
    have hsame : t.descriptors = s.descriptors := by
      rw [(step_server hstep).2.2.2]
      simp [Descriptors.follow, hpc]
    rw [hsame]
    exact hs.all_closed hseated (hlife.exited_of_place (by simp [hpc])) (by simp [hpc])
      (hs.stopped (by simp [hpc]))
  · have hkeep : ∀ (s : NetworkLayer ι) a t,
        (s.server.owner.pc.failing = true → s.descriptors.owned .listenFd = none) →
        Unencumbered s a → s.step a = some t →
        t.server.owner.pc.failing = true → t.descriptors.owned .listenFd = none :=
      fun _ _ _ hu hua hut => step_failing hu hua hut
    have hfailing := exec_invariant_along hkeep (fun _ => rfl) hok h
    rintro a t hstep ⟨rfl, hpc⟩
    rw [(step_server hstep).2.2.2]
    exact hs.all_closed hseated (hlife.exited_of_place (by simp [hpc])) (by simp [hpc])
      (hfailing (by simp [hpc]))

def bindFailsActions : List (NetworkAction Unit) :=
  [.server (.owner .start), .server (.owner .clearStop), .openWake {}, .listen { bind := false },
    .server (.owner .resetEnds)]

theorem descriptors_closed_bind_fails : ∃ s t, exec step (new 4) bindFailsActions = some s ∧
    s.step (.server (.owner .clearPending)) = some t ∧
    s.descriptors.log.length = 6 ∧ ∀ x, t.descriptors.owned x = none := by
  have hrun : (exec step (new 4) bindFailsActions).map (fun s =>
      (s.server.owner.pc, s.descriptors.log.length,
        (s.step (.server (.owner .clearPending))).isSome)) =
      some (.startClearPending, 6, true) := by decide +kernel
  rcases Option.map_eq_some_iff.mp hrun with ⟨s, hs, hlast⟩
  simp only [Prod.mk.injEq] at hlast
  rcases hlast with ⟨hpc, hlength, hstep⟩
  rcases Option.isSome_iff_exists.mp hstep with ⟨t, ht⟩
  have hok : Along Unencumbered step (new 4) bindFailsActions := by decide +kernel
  exact ⟨s, t, hs, ht, hlength, (descriptors_closed 4 hs).2.2.2 hok _ t ht ⟨rfl, hpc⟩⟩

/-- The thread of a running server ends because poll fails, and no pipe can be made for the
next: `start` returns false and leaves the old listening socket open. -/
def pipeFailsActions : List (NetworkAction Unit) :=
  [.server (.owner .start), .server (.owner .clearStop), .openWake {}, .listen {},
    .server (.owner .setRunning), .server (.owner (.spawn true)), .server (.io .loadStop),
    .server (.io .prepare), .server (.io (.pollFails false)), .server (.io .closeSession),
    .server (.io .exitClear), .server (.io .exitRunning), .server (.owner .start),
    .server (.owner .clearStop), .openWake { pipe := false }, .server (.owner .resetEnds)]

theorem failed_start_keeps_listening : ∃ s t, exec step (new 4) pipeFailsActions = some s ∧
    s.step (.server (.owner .clearPending)) = some t ∧
    StartFails s (.server (.owner .clearPending)) ∧ t.server.running = false ∧
    t.descriptors.owned .listenFd ≠ none := by
  have hrun : ((exec step (new 4) pipeFailsActions).bind fun s =>
      (s.step (.server (.owner .clearPending))).map fun t => (s, t)).map (fun r =>
        (r.1.server.owner.pc, r.2.server.running, r.2.descriptors.owned .listenFd)) =
      some (.startClearPending, false, some 2) := by decide +kernel
  rcases Option.map_eq_some_iff.mp hrun with ⟨⟨s, t⟩, hpair, hlast⟩
  rcases Option.bind_eq_some_iff.mp hpair with ⟨_, hs, hmap⟩
  rcases Option.map_eq_some_iff.mp hmap with ⟨_, ht, heq⟩
  simp only [Prod.mk.injEq] at hlast heq
  rcases heq with ⟨rfl, rfl⟩
  exact ⟨_, _, hs, ht, ⟨rfl, hlast.1⟩, hlast.2.1, by simp [hlast.2.2]⟩

end NetworkLayer

end AebNode
