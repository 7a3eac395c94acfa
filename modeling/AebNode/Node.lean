import AebNode.Application
import AebNode.ServerHistory

/-! The acquisition thread and the server together. For every acquired frame the thread runs
the fan-out callback, whose call of `publish` is interleaved with the I/O thread and whose
exceptions the lidar absorbs. -/
namespace AebNode
open Application Binary32 Machine Perception Protocol TcpServer

/-- The server, the frames still to be delivered, and the messages handed to the CAN bus. -/
structure Node where
  server : TcpServer Unit
  acquired : List Frame
  sent : List CanMessage := []

namespace Node

inductive Action
  | deliver
  | publish (event : PublishEvent)
  | owner (event : OwnerEvent)
  | io (event : IoEvent)
  deriving DecidableEq, Repr

/-- How the call of `publish` ended whose last step this was. -/
def publishResult : PublishEvent → Except Application.Exception Unit
  | .pushThrows => .error .badAlloc
  | _ => .ok ()

/-- `Lidar::Impl::deliverFrame` catches whatever the callback throws. -/
def deliverFrame (noCan : Bool) (perception : PerceptionConfig Value)
    (publish : Except Application.Exception Unit) (frame : Frame) : List CanMessage :=
  match lidarCallback noCan perception publish (frame.map Value.ofBits) with
  | .ok messages => messages
  | .error _ => []

variable (noCan : Bool) (perception : PerceptionConfig Value)

def step (n : Node) : Action → Option Node
  | .deliver =>
    match n.acquired with
    | [] => none
    | frame :: rest => (n.server.step (.publish () (.call frame))).map fun server =>
      { n with server := server, acquired := rest }
  | .publish (.call _) => none
  | .publish event => (n.server.step (.publish () event)).map fun server =>
    { n with
      server := server
      sent := if (server.calls ()).pc = .idle then
          n.sent ++ deliverFrame noCan perception (publishResult event) (n.server.calls ()).frame
        else n.sent }
  | .owner event => (n.server.step (.owner event)).map fun server => { n with server := server }
  | .io event => (n.server.step (.io event)).map fun server => { n with server := server }

/-- What the frames ask for on the CAN bus, each by itself. -/
def expected (frames : List Frame) : List CanMessage :=
  frames.flatMap fun frame =>
    if noCan then []
    else [brakeMessage (obstacle (process perception (frame.map Value.ofBits)))]

def unfinished (n : Node) : List Frame :=
  if (n.server.calls ()).pc = .idle then n.acquired
  else (n.server.calls ()).frame :: n.acquired

theorem publishStep_call {s t : TcpServer Unit} {event : PublishEvent}
    (hcall : ∀ frame, event ≠ .call frame) (h : s.publishStep () event = some t) :
    (s.calls ()).pc ≠ .idle ∧
      ((t.calls ()).pc ≠ .idle → (t.calls ()).frame = (s.calls ()).frame) ∧
      (event = .pushThrows → (t.calls ()).pc = .idle) := by
  cases event <;> simp only [publishStep, Option.ite_none_right_eq_some, Option.some.injEq,
    Option.map_eq_some_iff] at h
  case call frame => exact absurd rfl (hcall frame)
  case signal =>
    obtain ⟨hpc, ⟨_, next⟩, _, rfl⟩ := h
    cases next <;> simp [setCall, hpc]
  all_goals
    obtain ⟨hpc, rfl⟩ := h
    simp [setCall, hpc]

/-- One step settles at most the frame in delivery: with its message, or with nothing when its
`publish` throws. -/
theorem step_settles {n m : Node} {a : Action} (h : n.step noCan perception a = some m) :
    (a ≠ .publish .pushThrows ∧ m.sent ++ expected noCan perception m.unfinished =
      n.sent ++ expected noCan perception n.unfinished) ∨
    (a = .publish .pushThrows ∧ m.sent = n.sent ∧
      n.unfinished.length = m.unfinished.length + 1) := by
  have hserver : ∀ server : TcpServer Unit, server.calls = n.server.calls →
      ({ n with server := server } : Node).unfinished = n.unfinished := by
    intro server hcalls
    simp only [unfinished, hcalls]
  cases a with
  | deliver =>
    simp only [step] at h
    split at h
    · contradiction
    · rename_i frame rest hacquired
      obtain ⟨server, hs, rfl⟩ := Option.map_eq_some_iff.mp h
      simp only [TcpServer.step, publishStep, Option.ite_none_left_eq_some,
        Option.ite_none_right_eq_some, Option.some.injEq] at hs
      obtain ⟨-, hidle, rfl⟩ := hs
      refine Or.inl ⟨by simp, ?_⟩
      simp [unfinished, setCall, hidle, hacquired]
  | owner event =>
    obtain ⟨server, hs, rfl⟩ := Option.map_eq_some_iff.mp h
    simp only [TcpServer.step, Option.ite_none_left_eq_some] at hs
    obtain ⟨-, -, -, hcalls, -⟩ := ownerStep_frame hs.2
    exact Or.inl ⟨by simp, by rw [hserver server hcalls]⟩
  | io event =>
    obtain ⟨server, hs, rfl⟩ := Option.map_eq_some_iff.mp h
    simp only [TcpServer.step, Option.ite_none_left_eq_some] at hs
    obtain ⟨hcalls, -⟩ := ioStep_threads hs.2
    exact Or.inl ⟨by simp, by rw [hserver server hcalls]⟩
  | publish event =>
    have hcall : ∀ frame, event ≠ .call frame := by
      rintro frame rfl
      simp [step] at h
    have hmap : (n.server.step (.publish () event)).map (fun server =>
        { n with
          server := server
          sent := if (server.calls ()).pc = .idle then
              n.sent ++ deliverFrame noCan perception (publishResult event)
                (n.server.calls ()).frame
            else n.sent }) = some m := by
      cases event with
      | call frame => exact absurd rfl (hcall frame)
      | _ => exact h
    obtain ⟨server, hs, rfl⟩ := Option.map_eq_some_iff.mp hmap
    simp only [TcpServer.step, Option.ite_none_left_eq_some] at hs
    obtain ⟨hbusy, hframe, hthrow⟩ := publishStep_call hcall hs.2
    by_cases hthrows : event = .pushThrows
    · subst hthrows
      refine Or.inr ⟨rfl, ?_, ?_⟩
      · simp [hthrow rfl, deliverFrame, publishResult, lidarCallback_error]
      · simp [unfinished, hbusy, hthrow rfl]
    · refine Or.inl ⟨by simpa using hthrows, ?_⟩
      by_cases hidle : (server.calls ()).pc = .idle
      · have hok : publishResult event = .ok () := by
          cases event <;> first | rfl | contradiction
        simp [unfinished, hbusy, hidle, deliverFrame, hok, lidarCallback_ok, expected]
      · simp [unfinished, hbusy, hidle, hframe hidle]

theorem expected_length (frames : List Frame) :
    (expected noCan perception frames).length = if noCan then 0 else frames.length := by
  induction frames with
  | nil => cases noCan <;> rfl
  | cons frame frames ih =>
    rw [expected, List.flatMap_cons, List.length_append, ← expected, ih]
    cases noCan <;> simp [Nat.add_comm]

/-- Without an exception every frame ends in exactly the messages it asks for. -/
theorem exec_expected {n m : Node} {as : List Action}
    (h : exec (step noCan perception) n as = some m)
    (hthrow : ∀ a ∈ as, a ≠ .publish .pushThrows) :
    m.sent ++ expected noCan perception m.unfinished =
      n.sent ++ expected noCan perception n.unfinished := by
  induction as generalizing n with
  | nil =>
    obtain rfl := Option.some.inj h
    rfl
  | cons a as ih =>
    obtain ⟨u, hu, hm⟩ := exec_cons.mp h
    obtain ⟨ha, has⟩ := List.forall_mem_cons.mp hthrow
    rcases step_settles noCan perception hu with ⟨-, hsettled⟩ | ⟨hthrows, -⟩
    · rw [ih hm has, hsettled]
    · exact absurd hthrows ha

/-- With the CAN bus in use, every exception costs the message of its frame. -/
theorem exec_length {n m : Node} {as : List Action}
    (h : exec (step false perception) n as = some m) :
    m.sent.length + m.unfinished.length + as.count (.publish .pushThrows) =
      n.sent.length + n.unfinished.length := by
  induction as generalizing n with
  | nil =>
    obtain rfl := Option.some.inj h
    rfl
  | cons a as ih =>
    obtain ⟨u, hu, hm⟩ := exec_cons.mp h
    have hi := ih hm
    rcases step_settles false perception hu with ⟨ha, hsettled⟩ | ⟨rfl, hsent, hunfinished⟩
    · have hlength := congrArg List.length hsettled
      simp only [List.length_append, expected_length] at hlength
      rw [List.count_cons_of_ne ha]
      simp at hlength
      omega
    · rw [List.count_cons_self, ← hsent]
      omega

theorem expected_noCan (frames : List Frame) : expected true perception frames = [] := by
  simp [expected]

/-- With the CAN bus off nothing is ever sent. -/
theorem exec_noCan {n m : Node} {as : List Action}
    (h : exec (step true perception) n as = some m) : m.sent = n.sent := by
  induction as generalizing n with
  | nil =>
    obtain rfl := Option.some.inj h
    rfl
  | cons a as ih =>
    obtain ⟨u, hu, hm⟩ := exec_cons.mp h
    rw [ih hm]
    rcases step_settles true perception hu with ⟨-, hsettled⟩ | ⟨-, hsent, -⟩
    · simpa [expected_noCan] using hsettled
    · exact hsent

def new (capacity : ℕ) (frames : List Frame) : Node :=
  { server := .new capacity, acquired := frames }

def Finished (n : Node) : Prop := n.unfinished = []

/-- Over two finished runs on the same frames, with whatever the network side does in each, the
brake messages agree and are the ones the frames ask for exactly when the CAN bus is off or in
neither run an allocation of a push fails. -/
theorem braking_independent_iff {frames : List Frame} {capacity capacity' : ℕ}
    {as as' : List Action} {n n' : Node}
    (h : exec (step noCan perception) (new capacity frames) as = some n) (hn : n.Finished)
    (h' : exec (step noCan perception) (new capacity' frames) as' = some n') (hn' : n'.Finished) :
    (n.sent = n'.sent ∧ n.sent = expected noCan perception frames) ↔
      noCan = true ∨ ∀ a ∈ as ++ as', a ≠ .publish .pushThrows := by
  have hstart : ∀ c, (new c frames).unfinished = frames := fun _ => rfl
  cases noCan with
  | true =>
    refine ⟨fun _ => Or.inl rfl, fun _ => ?_⟩
    rw [exec_noCan perception h, exec_noCan perception h', expected_noCan]
    exact ⟨rfl, rfl⟩
  | false =>
    constructor
    · rintro ⟨hsame, hexpected⟩
      have hlength := exec_length perception h
      have hlength' := exec_length perception h'
      rw [hn, hstart] at hlength
      rw [hn', hstart, ← hsame] at hlength'
      have hframes : n.sent.length = frames.length := by
        rw [hexpected, expected_length]
        rfl
      simp only [new, List.length_nil] at hlength hlength'
      refine Or.inr fun a ha => ?_
      rintro rfl
      rcases List.mem_append.mp ha with ha | ha
      · have := List.count_pos_iff.mpr ha
        omega
      · have := List.count_pos_iff.mpr ha
        omega
    · rintro (hoff | hthrow)
      · contradiction
      have hsent := exec_expected false perception h fun a ha =>
        hthrow a (List.mem_append_left _ ha)
      have hsent' := exec_expected false perception h' fun a ha =>
        hthrow a (List.mem_append_right _ ha)
      rw [hn, hstart] at hsent
      rw [hn', hstart] at hsent'
      simp only [expected, List.flatMap_nil, List.append_nil, new, List.nil_append]
        at hsent hsent'
      exact ⟨hsent.trans hsent'.symm, hsent⟩

def connectActions : List Action :=
  [.owner .start, .owner .clearStop, .owner (.openWake true), .owner (.listen true),
    .owner .setRunning, .owner (.spawn true), .io .loadStop, .io .prepare,
    .io (.pollReturns false true {}), .io .clientEvents, .io .listenEvents,
    .io (.accept .connected), .io .install, .io .clearForSession]

/-- A frame delivered with no client attached. -/
def discardActions : List Action :=
  [.deliver, .publish .loadConnected, .publish .discard]

def queueActions : List Action :=
  [.deliver, .publish .loadConnected, .publish .loadRunning, .publish .push,
    .publish (.signal .proceed), .publish (.signal .proceed), .publish (.signal .written)]

def obstacleFrame : Frame := ⟨7, 9, [⟨0x43AF0000, 0x43FA0000, 20⟩, ⟨0x43AE8000, 0x43FA0000, 20⟩,
  ⟨0x43AE0000, 0x43FA0000, 20⟩]⟩

/-- The same brake message leaves the node with a client and without. -/
theorem braking_independent_iff_connected :
    ∃ n n', exec (step false {}) (new 4 [obstacleFrame]) discardActions = some n ∧
      exec (step false {}) (new 4 [obstacleFrame]) (connectActions ++ queueActions) = some n' ∧
      n.sent = n'.sent ∧ n.sent = [brakeMessage true] := by
  have hrun : (exec (step false {}) (new 4 [obstacleFrame]) discardActions).map
      (fun n => (n.unfinished, n.sent)) = some ([], [brakeMessage true]) := by decide +kernel
  have hrun' : (exec (step false {}) (new 4 [obstacleFrame])
      (connectActions ++ queueActions)).map unfinished = some [] := by decide +kernel
  obtain ⟨n, hn, hlast⟩ := Option.map_eq_some_iff.mp hrun
  obtain ⟨n', hn', hlast'⟩ := Option.map_eq_some_iff.mp hrun'
  obtain ⟨hfinished, hsent⟩ := Prod.mk.inj hlast
  have hagree := (braking_independent_iff false {} hn hfinished hn' hlast').mpr
    (Or.inr (by decide))
  exact ⟨n, n', hn, hn', hagree.1, hsent⟩

/-- A client is connected and the copy into the queue fails: the callback is left before
perception, and no brake message is sent for the obstacle. -/
theorem braking_depends_on_push :
    ¬ ∀ (as as' : List Action) (n n' : Node),
      exec (step false {}) (new 4 [obstacleFrame]) as = some n → n.Finished →
      exec (step false {}) (new 4 [obstacleFrame]) as' = some n' → n'.Finished →
      n.sent = n'.sent ∧ n.sent = expected false {} [obstacleFrame] := by
  intro hclaim
  have hrun : (exec (step false {}) (new 4 [obstacleFrame]) discardActions).map
      (fun n => (n.unfinished, n.sent)) = some ([], [brakeMessage true]) := by decide +kernel
  have hrun' : (exec (step false {}) (new 4 [obstacleFrame]) (connectActions ++
      [.deliver, .publish .loadConnected, .publish .loadRunning, .publish .pushThrows])).map
      (fun n => (n.unfinished, n.sent)) = some ([], []) := by decide +kernel
  obtain ⟨n, hn, hlast⟩ := Option.map_eq_some_iff.mp hrun
  obtain ⟨n', hn', hlast'⟩ := Option.map_eq_some_iff.mp hrun'
  obtain ⟨hfinished, hsent⟩ := Prod.mk.inj hlast
  obtain ⟨hfinished', hsent'⟩ := Prod.mk.inj hlast'
  have hsame := (hclaim _ _ n n' hn hfinished hn' hfinished').1
  rw [hsent, hsent'] at hsame
  exact List.cons_ne_nil _ _ hsame

end Node

end AebNode
