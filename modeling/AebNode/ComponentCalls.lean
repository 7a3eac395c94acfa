import AebNode.LidarLifecycle
import AebNode.ServerLifecycle

/-! What a whole call of `start` or `stop` does to a component: inside `stop` the owner passes
the join before anything is released, and behind it no thread and no handle is left. -/
namespace AebNode

namespace Lidar

variable {κ : Type*} {config : LidarConfig}

structure Released (s : Lidar κ) : Prop where
  exited : s.worker.pc = .exited
  joined : s.joinable = false
  driver : s.device.driver = none
  channel : s.device.channel = none

@[simp] def OwnerPc.stops : OwnerPc → Bool
  | .idle | .stopNotify | .stopJoin | .stopClose | .stopClearRunning => true
  | _ => false

@[simp] def OwnerPc.joined : OwnerPc → Bool
  | .stopClose | .stopClearRunning => true
  | _ => false

theorem OwnerPc.joined_stops {pc : OwnerPc} (h : pc.joined = true) : pc.stops = true := by
  cases pc <;> first | rfl | contradiction

/-- What `stop` has achieved at its later places. -/
structure Winding (s : Lidar κ) : Prop where
  joined : s.owner.pc.joined = true → s.worker.pc = .exited ∧ s.joinable = false
  closed : s.owner.pc = .stopClearRunning → s.device.driver = none ∧ s.device.channel = none

theorem Winding.of_before {s : Lidar κ} (h : s.owner.pc.joined = false) : Winding s where
  joined hj := absurd hj (h ▸ Bool.false_ne_true)
  closed hc := by simp [hc] at h

theorem new_released : Released (new : Lidar κ) := ⟨rfl, rfl, rfl, rfl⟩

/-- Behind the join there is no thread to step. -/
theorem workerStep_winding {s t : Lidar κ} {event : WorkerEvent} (hs : Winding s)
    (h : s.workerStep config event = some t) : Winding t := by
  obtain ⟨halive, -, howner, -⟩ := workerStep_frame h
  apply Winding.of_before
  rw [howner]
  cases hj : s.owner.pc.joined with
  | false => rfl
  | true => exact absurd (hs.joined hj).1 halive

theorem ownerStep_stops {s t : Lidar κ} {event : OwnerEvent κ} (hsupervised : Supervised s)
    (hs : Winding s) (hstops : s.owner.pc.stops = true)
    (hcall : s.owner.pc = .idle → event = .stop) (h : s.ownerStep config event = some t) :
    Winding t ∧ t.owner.pc.stops = true ∧ (t.owner.pc = .idle → Released t) := by
  cases event <;> simp only [ownerStep, Option.ite_none_right_eq_some, Option.some.injEq] at h
  case stop =>
    rcases h with ⟨-, rfl⟩
    exact ⟨.of_before rfl, rfl, by simp⟩
  case notify =>
    rcases h with ⟨-, rfl⟩
    exact ⟨.of_before rfl, rfl, by simp⟩
  case join =>
    rcases h with ⟨⟨hpc, hended⟩, rfl⟩
    have hexited : s.worker.pc = .exited := by
      by_contra hlive
      have hjoinable : s.joinable = true := by simpa [hpc] using hsupervised.held hlive
      exact hlive (hended hjoinable)
    exact ⟨⟨fun _ => ⟨hexited, rfl⟩, by simp⟩, rfl, by simp⟩
  case close =>
    split_ifs at h with hpc hpc
    · obtain rfl := Option.some.inj h
      exact ⟨⟨fun _ => hs.joined (by simp [hpc]), fun _ => by simp⟩, rfl, by simp⟩
    · simp [hpc] at hstops
  case clearRunning =>
    split_ifs at h with hpc hpc
    · obtain rfl := Option.some.inj h
      obtain ⟨hexited, hjoined⟩ := hs.joined (by simp [hpc])
      obtain ⟨hdriver, hchannel⟩ := hs.closed hpc
      exact ⟨.of_before rfl, rfl, fun _ => ⟨hexited, hjoined, hdriver, hchannel⟩⟩
    · simp [hpc] at hstops
  case start callback => exact absurd (hcall h.1) (by simp)
  case setError =>
    split_ifs at h with hpc hpc <;> simp [hpc] at hstops
  all_goals simp [h.1] at hstops

/-- A step of `start` stays in `start` until it returns; only the last one of a success makes
the thread joinable. -/
theorem ownerStep_starts {s t : Lidar κ} {event : OwnerEvent κ}
    (hstarts : s.owner.pc.stops = true → s.owner.pc = .idle) (hjoinable : s.joinable = false)
    (hcall : s.owner.pc = .idle → ∃ callback, event = .start callback)
    (h : s.ownerStep config event = some t) :
    (t.owner.pc.stops = true → t.owner.pc = .idle) ∧
      (t.owner.pc ≠ .idle → t.joinable = false) := by
  cases event <;> simp only [ownerStep, Option.ite_none_right_eq_some, Option.some.injEq] at h
  case stop => exact absurd (hcall h.1) (by simp)
  case notify => exact absurd (hstarts (by simp [h.1])) (by simp [h.1])
  case join => exact absurd (hstarts (by simp [h.1.1])) (by simp [h.1.1])
  case close =>
    split_ifs at h with hpc hpc
    · exact absurd (hstarts (by simp [hpc])) (by simp [hpc])
    · obtain rfl := Option.some.inj h
      exact ⟨by simp, fun _ => hjoinable⟩
  case clearRunning =>
    split_ifs at h with hpc hpc
    · exact absurd (hstarts (by simp [hpc])) (by simp [hpc])
    · obtain rfl := Option.some.inj h
      exact ⟨by simp, fun _ => hjoinable⟩
  case start callback =>
    rcases h with ⟨-, rfl⟩
    refine ⟨?_, fun _ => hjoinable⟩
    dsimp only
    split_ifs <;> simp
  case «open» sdk =>
    rcases h with ⟨-, rfl⟩
    refine ⟨?_, fun _ => hjoinable⟩
    cases (s.device.open config sdk).2 <;> simp
  case spawn failure =>
    rcases h with ⟨-, rfl⟩
    cases failure <;> exact ⟨by simp, fun _ => hjoinable⟩
  case assign =>
    rcases h with ⟨-, rfl⟩
    simp [hjoinable]
  case setError =>
    split_ifs at h <;> obtain rfl := Option.some.inj h <;> exact ⟨by simp, by simp⟩
  all_goals
    rcases h with ⟨-, rfl⟩
    exact ⟨by simp, fun _ => hjoinable⟩

end Lidar

namespace TcpServer

variable {ι : Type*}

structure Released (s : TcpServer ι) : Prop where
  exited : s.io.pc = .exited
  joined : s.joinable = false
  closed : s.wake.valid = false

/-- Behind its join `stop` has no thread left. -/
def Winding (s : TcpServer ι) : Prop := s.owner.pc.joined = true → s.joinable = false

theorem OwnerPc.joined_stops {pc : OwnerPc} (h : pc.joined = true) : pc.stops = true := by
  cases pc <;> first | rfl | contradiction

theorem new_released (capacity : ℕ) : Released (new capacity : TcpServer ι) := ⟨rfl, rfl, rfl⟩

theorem Lifecycle.released {s : TcpServer ι} (hs : Lifecycle s) (hjoined : s.joinable = false)
    (hidle : s.owner.pc = .idle) : Released s where
  exited := hs.exited_of_unjoinable hjoined
  joined := hjoined
  closed := hs.closed hjoined (by simp [hidle])

theorem ownerStep_stops {s t : TcpServer ι} {event : OwnerEvent} (hs : Winding s)
    (hstops : s.owner.pc.stops = true) (hcall : s.owner.pc = .idle → event = .stop)
    (h : s.ownerStep event = some t) :
    Winding t ∧ t.owner.pc.stops = true ∧
      (t.owner.pc = .idle → s.owner.pc.joined = true ∧ t.joinable = false) := by
  cases event <;> simp only [ownerStep, Option.ite_none_right_eq_some, Option.some.injEq,
    Option.map_eq_some_iff] at h
  case stop =>
    rcases h with ⟨-, rfl⟩
    simp [Winding]
  case signal event =>
    rcases h with ⟨hpc, ⟨_, next⟩, -, rfl⟩
    cases next <;> simp [Winding, hpc]
  case join =>
    rcases h with ⟨-, rfl⟩
    simp [Winding]
  case clearConnected =>
    rcases h with ⟨hpc, rfl⟩
    exact ⟨fun _ => hs (by simp [hpc]), rfl, by simp⟩
  case resetEnds =>
    split_ifs at h with hpc hpc
    · obtain rfl := Option.some.inj h
      exact ⟨fun _ => hs (by simp [hpc]), rfl, by simp⟩
    · simp [hpc] at hstops
  case clearPending =>
    split_ifs at h with hpc hpc
    · obtain rfl := Option.some.inj h
      exact ⟨fun _ => hs (by simp [hpc]), rfl, by simp⟩
    · simp [hpc] at hstops
  case clearRunning =>
    split_ifs at h with hpc hpc
    · obtain rfl := Option.some.inj h
      have hjoined : s.joinable = false := hs (by simp [hpc])
      exact ⟨fun _ => hjoined, rfl, fun _ => ⟨by simp [hpc], hjoined⟩⟩
    · simp [hpc] at hstops
  case start => exact absurd (hcall h.1) (by simp)
  all_goals simp [h.1] at hstops

/-- A step of `start` stays in `start` until it returns. -/
theorem ownerStep_starts {s t : TcpServer ι} {event : OwnerEvent}
    (hstarts : s.owner.pc.stops = true → s.owner.pc = .idle)
    (hcall : s.owner.pc = .idle → event = .start) (h : s.ownerStep event = some t) :
    t.owner.pc.stops = true → t.owner.pc = .idle := by
  cases event <;> simp only [ownerStep, Option.ite_none_right_eq_some, Option.some.injEq,
    Option.map_eq_some_iff] at h
  case stop => exact absurd (hcall h.1) (by simp)
  case signal => exact absurd (hstarts (by simp [h.1])) (by simp [h.1])
  case join => exact absurd (hstarts (by simp [h.1.1])) (by simp [h.1.1])
  case clearConnected => exact absurd (hstarts (by simp [h.1])) (by simp [h.1])
  case resetEnds =>
    split_ifs at h with hpc hpc
    · exact absurd (hstarts (by simp [hpc])) (by simp [hpc])
    · obtain rfl := Option.some.inj h
      simp
  case clearPending =>
    split_ifs at h with hpc hpc
    · exact absurd (hstarts (by simp [hpc])) (by simp [hpc])
    · obtain rfl := Option.some.inj h
      simp
  case clearRunning =>
    split_ifs at h with hpc hpc
    · exact absurd (hstarts (by simp [hpc])) (by simp [hpc])
    · obtain rfl := Option.some.inj h
      simp
  case start =>
    rcases h with ⟨-, rfl⟩
    dsimp only
    split_ifs <;> simp
  case openWake succeeds =>
    rcases h with ⟨-, rfl⟩
    cases succeeds <;> simp
  case listen succeeds =>
    rcases h with ⟨-, rfl⟩
    cases succeeds <;> simp
  case spawn succeeds =>
    rcases h with ⟨-, rfl⟩
    split_ifs <;> simp
  all_goals
    rcases h with ⟨-, rfl⟩
    simp

end TcpServer

end AebNode
