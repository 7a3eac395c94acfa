import AebNode.LidarRecovery
import AebNode.ServerLifecycle

/-! Whether `start` ever assigns to a worker that was not joined. The running check looks at a
flag that the thread takes down by itself, while only `stop` joins it: the two part when a
thread ends unasked. -/
namespace AebNode
open Machine

inductive LifeEvent
  | endedByItself
  | stopCalled
  deriving DecidableEq, Repr

/-- The thread ended without being asked to, and `stop` was not called since. -/
def Unattended (w : List LifeEvent) : Prop := w.getLast? = some .endedByItself

instance (w : List LifeEvent) : Decidable (Unattended w) :=
  inferInstanceAs (Decidable (w.getLast? = some .endedByItself))

@[simp] theorem unattended_ended (w : List LifeEvent) : Unattended (w ++ [.endedByItself]) := by
  simp [Unattended]

@[simp] theorem not_unattended_stopped (w : List LifeEvent) :
    ¬ Unattended (w ++ [.stopCalled]) := by
  simp [Unattended]

namespace Lidar

variable {κ : Type*} {config : LidarConfig} {w : List LifeEvent}

def lifeEvent (s : Lidar κ) : Action κ → List LifeEvent
  | .worker .exitRunning => if s.stopRequested then [] else [.endedByItself]
  | .owner .stop => [.stopCalled]
  | _ => []

def lifeEvents (config : LidarConfig) (as : List (Action κ)) : List LifeEvent :=
  trace (step config) lifeEvent new as

/-- The places of `start` after its running check. -/
@[simp] def OwnerPc.pastCheck : OwnerPc → Bool
  | .startClearStop | .startOpen | .startCountConnect | .startSetRunning | .startSpawn
  | .startAssign | .startOpenError | .spawnClearRunning | .spawnClose => true
  | _ => false

/-- A `start` past its running check finds no thread left to join, and none was ever assigned
over a joinable one. -/
def StartsJoined (s : Lidar κ) : Prop :=
  s.owner.pc ≠ .terminated ∧ (s.owner.pc.pastCheck = true → s.joinable = false)

@[simp] def OwnerPc.stopping : OwnerPc → Bool
  | .stopNotify | .stopJoin => true
  | _ => false

@[simp] def OwnerPc.spawns : OwnerPc → Bool
  | .startOpen | .startCountConnect | .startSetRunning | .startSpawn | .startAssign => true
  | _ => false

/-- Who is to join the thread: a thread that ended is left to a `stop` under way, or it ended by
itself and nobody attends to it yet. -/
structure Custody (w : List LifeEvent) (s : Lidar κ) : Prop where
  supervised : Supervised s
  asked : s.joinable = true → s.stopRequested = true → s.owner.pc.stopping = true
  attended : s.owner.pc.stopping = true → s.stopRequested = true ∧ ¬ Unattended w
  cleared : s.owner.pc.spawns = true → s.stopRequested = false
  left : s.worker.pc = .exited → s.joinable = true ∨ s.owner.pc = .startAssign →
    s.owner.pc.stopping = true ∨ Unattended w
  held : Unattended w → s.joinable = true ∨ s.owner.pc = .startAssign
  gone : Unattended w → s.worker.pc = .exited ∨
    s.joinable = true ∧ (s.owner.pc = .startAssign ∨ s.owner.pc = .terminated)

theorem new_custody : Custody [] (new : Lidar κ) :=
  ⟨new_supervised, by simp [new], by simp [new], by simp [new], by simp [new],
    by simp [Unattended], by simp [Unattended]⟩

theorem workerStep_custody {s t : Lidar κ} {event : WorkerEvent} (hs : Custody w s)
    (hrunning : s.owner.pc ≠ .terminated) (h : s.workerStep config event = some t) :
    Custody (w ++ lifeEvent s (.worker event)) t := by
  obtain ⟨halive, -, howner, hjoinable, hstop, -⟩ := workerStep_frame h
  have hsupervised := workerStep_supervised hs.supervised h
  have hheld := hs.supervised.held halive
  have hgone := fun hw => (hs.gone hw).resolve_left halive
  by_cases hexit : event = .exitRunning
  · subst hexit
    simp only [workerStep, Option.ite_none_right_eq_some, Option.some.injEq] at h
    obtain ⟨-, rfl⟩ := h
    by_cases hrequested : s.stopRequested = true
    · rw [show lifeEvent s (.worker .exitRunning) = [] from if_pos hrequested, List.append_nil]
      refine ⟨hsupervised, hs.asked, hs.attended, hs.cleared, fun _ hwho => Or.inl ?_, hs.held,
        fun _ => Or.inl rfl⟩
      rcases hwho with hjoin | hassign
      · exact hs.asked hjoin hrequested
      · have hcleared := hs.cleared (by rw [show s.owner.pc = .startAssign from hassign]; rfl)
        rw [hrequested] at hcleared
        cases hcleared
    · rw [show lifeEvent s (.worker .exitRunning) = [.endedByItself] from if_neg hrequested]
      refine ⟨hsupervised, hs.asked, fun hstopping => absurd (hs.attended hstopping).1 hrequested,
        hs.cleared, fun _ _ => Or.inr (unattended_ended w), fun _ => ?_, fun _ => Or.inl rfl⟩
      simpa [hrunning, goto] using hheld
  · have hquiet : lifeEvent s (.worker event) = [] := by
      cases event <;> first | rfl | exact absurd rfl hexit
    have hlive : t.worker.pc ≠ .exited := fun hexited => by
      obtain ⟨hpc, -⟩ := workerStep_exits h hexited
      cases event <;> simp [workerStep, hpc] at h hexit
    rw [hquiet, List.append_nil]
    constructor
    case supervised => exact hsupervised
    case asked => rw [hjoinable, hstop, howner]; exact hs.asked
    case attended => rw [howner, hstop]; exact hs.attended
    case cleared => rw [howner, hstop]; exact hs.cleared
    case left => exact fun hexited => absurd hexited hlive
    case held => rw [hjoinable, howner]; exact hs.held
    case gone => rw [hjoinable, howner]; exact fun hw => Or.inr (hgone hw)

theorem Custody.of_quiet {s t : Lidar κ} (hs : Custody w s) (hsupervised : Supervised t)
    (hworker : t.worker = s.worker) (hjoinable : t.joinable = s.joinable)
    (hbefore : s.owner.pc ≠ .startAssign ∧ s.owner.pc ≠ .terminated ∧
      s.owner.pc.stopping = false)
    (hstop : t.stopRequested = true → s.stopRequested = true)
    (hcleared : t.owner.pc.spawns = true → t.stopRequested = false)
    (hafter : t.owner.pc.stopping = false ∧ t.owner.pc ≠ .startAssign) : Custody w t where
  supervised := hsupervised
  asked hjoin hrequested := by
    have hstopping := hs.asked (hjoinable ▸ hjoin) (hstop hrequested)
    exact absurd hstopping (hbefore.2.2 ▸ Bool.false_ne_true)
  attended hstopping := absurd hstopping (hafter.1 ▸ Bool.false_ne_true)
  cleared := hcleared
  left hexited hwho := by
    rw [hworker] at hexited
    simp only [hjoinable, hafter.2, or_false] at hwho
    rcases hs.left hexited (Or.inl hwho) with hstopping | hw
    · exact absurd hstopping (hbefore.2.2 ▸ Bool.false_ne_true)
    · exact Or.inr hw
  held hw := Or.inl (hjoinable ▸ (hs.held hw).resolve_right hbefore.1)
  gone hw := by
    rcases hs.gone hw with hexited | ⟨-, hassign | hterminated⟩
    · exact Or.inl (hworker ▸ hexited)
    · exact absurd hassign hbefore.1
    · exact absurd hterminated hbefore.2.1

theorem ownerStep_custody {s t : Lidar κ} {event : OwnerEvent κ} (hs : Custody w s)
    (h : s.ownerStep config event = some t) :
    Custody (w ++ lifeEvent s (.owner event)) t := by
  have hsupervised := ownerStep_supervised hs.supervised h
  cases event <;> simp only [ownerStep, Option.ite_none_right_eq_some, Option.some.injEq] at h
  case stop =>
    obtain ⟨hpc, rfl⟩ := h
    have hstopped := not_unattended_stopped w
    exact ⟨hsupervised, fun _ _ => rfl, fun _ => ⟨rfl, hstopped⟩, by simp,
      fun _ _ => Or.inl rfl, fun hw => absurd hw hstopped, fun hw => absurd hw hstopped⟩
  case notify =>
    obtain ⟨hpc, rfl⟩ := h
    simp only [lifeEvent, List.append_nil]
    have hattended := hs.attended (by simp [hpc])
    exact ⟨hsupervised, fun _ _ => rfl, fun _ => hattended, by simp, fun _ _ => Or.inl rfl,
      fun hw => absurd hw hattended.2, fun hw => absurd hw hattended.2⟩
  case join =>
    obtain ⟨⟨hpc, -⟩, rfl⟩ := h
    simp only [lifeEvent, List.append_nil]
    have hattended := hs.attended (by simp [hpc])
    exact ⟨hsupervised, by simp, by simp, by simp, by simp,
      fun hw => absurd hw hattended.2, fun hw => absurd hw hattended.2⟩
  case spawn failure =>
    obtain ⟨hpc, rfl⟩ := h
    simp only [lifeEvent, List.append_nil]
    cases failure with
    | some what => exact hs.of_quiet hsupervised rfl rfl (by simp [hpc]) id (by simp) (by simp)
    | none =>
      have hcleared := hs.cleared (by simp [hpc])
      have hjoinable : Unattended w → s.joinable = true := fun hw => by
        simpa [hpc] using hs.held hw
      refine ⟨hsupervised, fun _ hrequested => ?_, by simp, fun _ => hcleared, by simp,
        fun _ => Or.inr rfl, fun hw => Or.inr ⟨hjoinable hw, Or.inl rfl⟩⟩
      simp [hcleared] at hrequested
  case assign =>
    obtain ⟨hpc, rfl⟩ := h
    simp only [lifeEvent, List.append_nil]
    have hcleared := hs.cleared (by simp [hpc])
    have hleft := fun hexited => (hs.left hexited (Or.inr hpc)).resolve_left (by simp [hpc])
    split_ifs at hsupervised ⊢ with hjoin
    · refine ⟨hsupervised, fun _ hrequested => ?_, by simp, by simp,
        fun hexited _ => Or.inr (hleft hexited), fun _ => Or.inl hjoin,
        fun _ => Or.inr ⟨hjoin, Or.inr rfl⟩⟩
      simp [hcleared] at hrequested
    · refine ⟨hsupervised, fun _ hrequested => ?_, by simp, by simp,
        fun hexited _ => Or.inr (hleft hexited), fun _ => Or.inl rfl, fun hw => Or.inl ?_⟩
      · simp [hcleared] at hrequested
      · simpa [hjoin] using hs.gone hw
  case start callback =>
    obtain ⟨hpc, rfl⟩ := h
    simp only [lifeEvent, List.append_nil]
    split_ifs at hsupervised ⊢ <;>
      exact hs.of_quiet hsupervised rfl rfl (by simp [hpc]) id (by simp) (by simp)
  case clearStop =>
    obtain ⟨hpc, rfl⟩ := h
    simp only [lifeEvent, List.append_nil]
    exact hs.of_quiet hsupervised rfl rfl (by simp [hpc]) (by simp) (fun _ => rfl) (by simp)
  case «open» sdk =>
    obtain ⟨hpc, rfl⟩ := h
    simp only [lifeEvent, List.append_nil]
    have hcleared := hs.cleared (by simp [hpc])
    refine hs.of_quiet hsupervised rfl rfl (by simp [hpc]) id (fun _ => hcleared) ?_
    cases (s.device.open config sdk).2 <;> simp
  case setError =>
    simp only [lifeEvent, List.append_nil]
    obtain ⟨lastError, he⟩ := s.setError_eq s.owner.error
    rw [he] at h
    split_ifs at h with hpc hpc <;> obtain rfl := Option.some.inj h <;>
      exact hs.of_quiet hsupervised rfl rfl (by simp [hpc]) id (by simp) (by simp)
  case close =>
    simp only [lifeEvent, List.append_nil]
    split_ifs at h with hpc hpc <;> obtain rfl := Option.some.inj h <;>
      exact hs.of_quiet hsupervised rfl rfl (by simp [hpc]) id (by simp) (by simp)
  case clearRunning =>
    simp only [lifeEvent, List.append_nil]
    split_ifs at h with hpc hpc <;> obtain rfl := Option.some.inj h <;>
      exact hs.of_quiet hsupervised rfl rfl (by simp [hpc]) id (by simp) (by simp)
  all_goals
    obtain ⟨hpc, rfl⟩ := h
    simp only [lifeEvent, List.append_nil]
    exact hs.of_quiet hsupervised rfl rfl (by simp [hpc]) id
      (fun _ => hs.cleared (by simp [hpc])) (by simp)

theorem exec_custody {as : List (Action κ)} {s : Lidar κ}
    (h : exec (step config) new as = some s) : Custody (lifeEvents config as) s := by
  have hkeep : ∀ w (s : Lidar κ) a t, Custody w s → s.step config a = some t →
      Custody (w ++ lifeEvent s a) t := by
    intro w s a t hs hstep
    simp only [step, Option.ite_none_left_eq_some] at hstep
    cases a with
    | worker event => exact workerStep_custody hs hstep.1 hstep.2
    | owner event => exact ownerStep_custody hs hstep.2
  exact exec_trace_invariant hkeep new_custody h

/-- A `start` that finds a thread which ended by itself unattended gets past the running check
and would assign over it. -/
theorem start_unattended {s t : Lidar κ} {callback : κ} (hs : Custody w s)
    (hdown : s.worker.pc = .exited → s.owner.pc.bringsUp = false → s.running = false)
    (hw : Unattended w) (h : s.step config (.owner (.start (some callback))) = some t) :
    ¬ StartsJoined t := by
  simp only [step, ownerStep, Option.ite_none_left_eq_some, Option.ite_none_right_eq_some,
    Option.some.injEq] at h
  obtain ⟨-, hpc, rfl⟩ := h
  have hjoinable : s.joinable = true := by simpa [hpc] using hs.held hw
  have hexited : s.worker.pc = .exited := by simpa [hpc] using hs.gone hw
  have hrunning := hdown hexited (by simp [hpc])
  simp [StartsJoined, hrunning, hjoinable]

theorem step_startsJoined {s t : Lidar κ} {a : Action κ} (hs : Custody w s) (hsafe : StartsJoined s)
    (hattended : ∀ callback, a = .owner (.start (some callback)) → ¬ Unattended w)
    (h : s.step config a = some t) : StartsJoined t := by
  obtain ⟨hnot, hjoined⟩ := hsafe
  simp only [step, Option.ite_none_left_eq_some] at h
  obtain ⟨-, h⟩ := h
  cases a with
  | worker event =>
    obtain ⟨-, -, howner, hjoinable, -, -⟩ := workerStep_frame h
    rw [StartsJoined, howner, hjoinable]
    exact ⟨hnot, hjoined⟩
  | owner event =>
    have hkeep : t.joinable = s.joinable → s.owner.pc.pastCheck = true →
        t.owner.pc ≠ .terminated → StartsJoined t := fun hsame hpast hdone =>
      ⟨hdone, fun _ => hsame.trans (hjoined hpast)⟩
    cases event <;> simp only [ownerStep, Option.ite_none_right_eq_some, Option.some.injEq] at h
    case start callback =>
      obtain ⟨hpc, rfl⟩ := h
      cases callback with
      | none => simp [StartsJoined]
      | some callback =>
        cases hrunning : s.running with
        | true => simp [StartsJoined]
        | false =>
          refine ⟨by simp, fun _ => ?_⟩
          have hexited := hs.supervised.exited_of_down hrunning
          by_contra hjoin
          have hleft := hs.left hexited (Or.inl (by simpa using hjoin))
          exact hattended callback rfl (hleft.resolve_left (by simp [hpc]))
    case «open» sdk =>
      obtain ⟨hpc, rfl⟩ := h
      refine hkeep rfl (by simp [hpc]) ?_
      cases (s.device.open config sdk).2 <;> simp
    case assign =>
      obtain ⟨hpc, rfl⟩ := h
      simp [StartsJoined, hjoined (by simp [hpc])]
    case spawn failure =>
      obtain ⟨hpc, rfl⟩ := h
      cases failure <;> exact hkeep rfl (by simp [hpc]) (by simp)
    case close =>
      split_ifs at h with hpc hpc <;> obtain rfl := Option.some.inj h
      · simp [StartsJoined]
      · exact hkeep rfl (by simp [hpc]) (by simp)
    case clearRunning =>
      split_ifs at h with hpc hpc <;> obtain rfl := Option.some.inj h
      · simp [StartsJoined]
      · exact hkeep rfl (by simp [hpc]) (by simp)
    case setError =>
      obtain ⟨lastError, he⟩ := s.setError_eq s.owner.error
      rw [he] at h
      split_ifs at h <;> obtain rfl := Option.some.inj h <;> simp [StartsJoined]
    case stop =>
      obtain ⟨-, rfl⟩ := h
      simp [StartsJoined]
    case notify =>
      obtain ⟨-, rfl⟩ := h
      simp [StartsJoined]
    case join =>
      obtain ⟨-, rfl⟩ := h
      simp [StartsJoined]
    all_goals
      obtain ⟨hpc, rfl⟩ := h
      exact hkeep rfl (by simp [hpc]) (by simp)

/-- Over every run: the handle is safe in each state passed exactly if no `start` is called
while a thread that ended by itself is unattended. -/
theorem startsJoined_iff {as : List (Action κ)} {s : Lidar κ}
    (hrun : exec (step config) new as = some s) :
    (∀ bs cs callback, as = bs ++ .owner (.start (some callback)) :: cs →
      ¬ Unattended (lifeEvents config bs)) ↔
    ∀ bs t, bs <+: as → exec (step config) new bs = some t → StartsJoined t := by
  have hstep : ∀ bs (a : Action κ) u v, exec (step config) new bs = some u → StartsJoined u →
      u.step config a = some v → (StartsJoined v ↔
        ¬ ∃ callback, a = .owner (.start (some callback)) ∧
          Unattended (lifeEvents config bs)) := by
    intro bs a u v hbs hsafe hv
    have hs := exec_custody hbs
    constructor
    · rintro hjoined ⟨callback, rfl, hw⟩
      refine start_unattended hs (fun hexited hplace => ?_) hw hv hjoined
      exact ((exec_recovery hbs).ended hexited hplace).2
    · intro hnone
      refine step_startsJoined hs hsafe ?_ hv
      rintro callback rfl hw
      exact hnone ⟨callback, rfl, hw⟩
  rw [← exec_prefix_iff (by simp [StartsJoined, new]) hstep hrun]
  constructor
  · rintro hattended bs a cs hsplit ⟨callback, rfl, hw⟩
    exact hattended bs cs callback hsplit hw
  · intro hnone bs cs callback hsplit hw
    exact hnone bs _ cs hsplit ⟨callback, rfl, hw⟩

end Lidar

namespace TcpServer

variable {ι : Type*} {w : List LifeEvent}

def lifeEvent (s : TcpServer ι) : Action ι → List LifeEvent
  | .io .exitRunning => if s.stopRequested then [] else [.endedByItself]
  | .owner .stop => [.stopCalled]
  | _ => []

/-- The places of `start` after its running check. -/
@[simp] def OwnerPc.pastCheck : OwnerPc → Bool
  | .startClearStop | .startOpenWake | .startListen | .startSetRunning | .startSpawn
  | .spawnClearRunning | .startResetEnds | .startClearPending => true
  | _ => false

/-- A `start` past its running check finds no thread left to join, and none was ever assigned
over a joinable one. -/
def StartsJoined (s : TcpServer ι) : Prop :=
  s.owner.pc ≠ .terminated ∧ (s.owner.pc.pastCheck = true → s.joinable = false)

@[simp] def OwnerPc.stopping : OwnerPc → Bool
  | .stopSignal | .stopJoin => true
  | _ => false

@[simp] def OwnerPc.spawns : OwnerPc → Bool
  | .startOpenWake | .startListen | .startSetRunning | .startSpawn => true
  | _ => false

/-- The places at which the running flag is up without a thread. -/
@[simp] def OwnerPc.bringsUp : OwnerPc → Bool
  | .startSpawn | .spawnClearRunning | .terminated => true
  | _ => false

/-- Who is to join the thread: one that ended is left to a `stop` under way, or it ended by
itself and nobody attends to it yet. -/
structure Custody (w : List LifeEvent) (s : TcpServer ι) : Prop where
  lifecycle : Lifecycle s
  returnTo : s.io.returnTo.awaitsEndSession = true
  asked : s.joinable = true → s.stopRequested = true → s.owner.pc.stopping = true
  attended : s.owner.pc.stopping = true → s.stopRequested = true ∧ ¬ Unattended w
  cleared : s.owner.pc.spawns = true → s.stopRequested = false
  left : s.io.pc = .exited → s.joinable = true → s.owner.pc.stopping = true ∨ Unattended w
  gone : Unattended w → s.joinable = true ∧ s.io.pc = .exited
  ended : s.io.pc = .exited → s.owner.pc.bringsUp = false → s.running = false

theorem new_custody (capacity : ℕ) : Custody [] (new capacity : TcpServer ι) :=
  ⟨new_lifecycle capacity, rfl, by simp [new], by simp [new], by simp [new], by simp [new],
    by simp [Unattended], by simp [new]⟩

theorem ioStep_custody {s t : TcpServer ι} {event : IoEvent} (hs : Custody w s)
    (h : s.ioStep event = some t) : Custody (w ++ lifeEvent s (.io event)) t := by
  obtain ⟨halive, -⟩ := ioStep_running h
  obtain ⟨-, howner, hstop, hjoinable⟩ := ioStep_threads h
  have hjoin := (hs.lifecycle.live halive).1
  have hlifecycle := ioStep_lifecycle hs.lifecycle h
  have hreturn := ioStep_returnTo h hs.returnTo
  by_cases hexit : event = .exitRunning
  · subst hexit
    simp only [ioStep, Option.ite_none_right_eq_some, Option.some.injEq] at h
    obtain ⟨-, rfl⟩ := h
    by_cases hrequested : s.stopRequested = true
    · rw [show lifeEvent s (.io .exitRunning) = [] from if_pos hrequested, List.append_nil]
      exact ⟨hlifecycle, hreturn, hs.asked, hs.attended, hs.cleared,
        fun _ _ => Or.inl (hs.asked hjoin hrequested), fun _ => ⟨hjoin, rfl⟩, fun _ _ => rfl⟩
    · rw [show lifeEvent s (.io .exitRunning) = [.endedByItself] from if_neg hrequested]
      exact ⟨hlifecycle, hreturn, hs.asked,
        fun hstopping => absurd (hs.attended hstopping).1 hrequested, hs.cleared,
        fun _ _ => Or.inr (unattended_ended w), fun _ => ⟨hjoin, rfl⟩, fun _ _ => rfl⟩
  · have hquiet : lifeEvent s (.io event) = [] := by
      cases event <;> first | rfl | exact absurd rfl hexit
    have hlive : t.io.pc ≠ .exited := fun hexited => hexit (ioStep_exits h hs.returnTo hexited)
    rw [hquiet, List.append_nil]
    constructor
    case lifecycle => exact hlifecycle
    case returnTo => exact hreturn
    case asked => rw [hjoinable, hstop, howner]; exact hs.asked
    case attended => rw [howner, hstop]; exact hs.attended
    case cleared => rw [howner, hstop]; exact hs.cleared
    case left => exact fun hexited => absurd hexited hlive
    case gone => exact fun hw => absurd (hs.gone hw).2 halive
    case ended => exact fun hexited => absurd hexited hlive

theorem Custody.of_quiet {s t : TcpServer ι} (hs : Custody w s) (hlifecycle : Lifecycle t)
    (hio : t.io = s.io) (hjoinable : t.joinable = s.joinable)
    (hbefore : s.owner.pc.stopping = false)
    (hstop : t.stopRequested = true → s.stopRequested = true)
    (hcleared : t.owner.pc.spawns = true → t.stopRequested = false)
    (hafter : t.owner.pc.stopping = false)
    (hended : t.io.pc = .exited → t.owner.pc.bringsUp = false → t.running = false) :
    Custody w t where
  lifecycle := hlifecycle
  returnTo := hio ▸ hs.returnTo
  asked hjoin hrequested := by
    have hstopping := hs.asked (hjoinable ▸ hjoin) (hstop hrequested)
    exact absurd hstopping (hbefore ▸ Bool.false_ne_true)
  attended hstopping := absurd hstopping (hafter ▸ Bool.false_ne_true)
  cleared := hcleared
  left hexited hjoin := by
    rcases hs.left (hio ▸ hexited) (hjoinable ▸ hjoin) with hstopping | hw
    · exact absurd hstopping (hbefore ▸ Bool.false_ne_true)
    · exact Or.inr hw
  gone := by
    rw [hjoinable, hio]
    exact hs.gone
  ended := hended

variable [DecidableEq ι]

theorem publishStep_custody {s t : TcpServer ι} {p : ι} {event : PublishEvent} (hs : Custody w s)
    (h : s.publishStep p event = some t) : Custody w t := by
  obtain ⟨-, -, hio, howner, hstop, hjoinable⟩ := publishStep_frame h
  have hrunning := (publishStep_flags h).1
  constructor
  case lifecycle => exact publishStep_lifecycle hs.lifecycle h
  case returnTo => exact hio ▸ hs.returnTo
  case asked => rw [hjoinable, hstop, howner]; exact hs.asked
  case attended => rw [howner, hstop]; exact hs.attended
  case cleared => rw [howner, hstop]; exact hs.cleared
  case left => rw [hio, hjoinable, howner]; exact hs.left
  case gone => rw [hjoinable, hio]; exact hs.gone
  case ended => rw [hio, howner, hrunning]; exact hs.ended

theorem ownerStep_custody {s t : TcpServer ι} {event : OwnerEvent} (hs : Custody w s)
    (h : s.ownerStep event = some t) : Custody (w ++ lifeEvent s (.owner event)) t := by
  have hlifecycle := ownerStep_lifecycle hs.lifecycle h
  cases event <;> simp only [ownerStep, Option.ite_none_right_eq_some, Option.some.injEq,
    Option.map_eq_some_iff] at h
  case stop =>
    obtain ⟨hpc, rfl⟩ := h
    have hstopped := not_unattended_stopped w
    exact ⟨hlifecycle, hs.returnTo, fun _ _ => rfl, fun _ => ⟨rfl, hstopped⟩, by simp,
      fun _ _ => Or.inl rfl, fun hw => absurd hw hstopped,
      fun hexited _ => hs.ended hexited (by simp [hpc])⟩
  case signal event =>
    obtain ⟨hpc, ⟨wake, next⟩, -, ht⟩ := h
    have hattended := hs.attended (by simp [hpc])
    have hplace : t.owner.pc = .stopSignal ∨ t.owner.pc = .stopJoin := by
      rw [← ht]
      cases next <;> simp [hpc]
    have hstopping : t.owner.pc.stopping = true := by obtain h | h := hplace <;> simp [h]
    have hdown : t.owner.pc.spawns = false := by obtain h | h := hplace <;> simp [h]
    simp only [lifeEvent, List.append_nil]
    refine ⟨hlifecycle, ?_, fun _ _ => hstopping, fun _ => ?_, fun hspawns => ?_,
      fun _ _ => Or.inl hstopping, fun hw => absurd hw hattended.2, fun hexited _ => ?_⟩
    · exact ht ▸ hs.returnTo
    · exact ht ▸ hattended
    · exact absurd hspawns (hdown ▸ Bool.false_ne_true)
    · subst ht
      exact hs.ended hexited (by simp [hpc])
  case join =>
    obtain ⟨⟨hpc, -⟩, rfl⟩ := h
    simp only [lifeEvent, List.append_nil]
    have hattended := hs.attended (by simp [hpc])
    exact ⟨hlifecycle, hs.returnTo, by simp, by simp, by simp, by simp,
      fun hw => absurd hw hattended.2, fun hexited _ => hs.ended hexited (by simp [hpc])⟩
  case resetEnds | clearPending =>
    simp only [lifeEvent, List.append_nil]
    split_ifs at h with hpc hpc <;> obtain rfl := Option.some.inj h <;>
      exact hs.of_quiet hlifecycle rfl rfl (by simp [hpc]) id (by simp) (by simp)
        (fun hexited _ => hs.ended hexited (by simp [hpc]))
  case clearRunning =>
    simp only [lifeEvent, List.append_nil]
    split_ifs at h with hpc hpc <;> obtain rfl := Option.some.inj h <;>
      exact hs.of_quiet hlifecycle rfl rfl (by simp [hpc]) id (by simp) (by simp) (fun _ _ => rfl)
  case clearConnected =>
    obtain ⟨hpc, rfl⟩ := h
    simp only [lifeEvent, List.append_nil]
    exact hs.of_quiet hlifecycle rfl rfl (by simp [hpc]) id (by simp) (by simp)
      (fun hexited _ => hs.ended hexited (by simp [hpc]))
  case start =>
    obtain ⟨hpc, rfl⟩ := h
    simp only [lifeEvent, List.append_nil]
    refine hs.of_quiet hlifecycle rfl rfl (by simp [hpc]) id ?_ ?_
      (fun hexited _ => hs.ended hexited (by simp [hpc])) <;>
      cases s.running <;> simp
  case clearStop =>
    obtain ⟨hpc, rfl⟩ := h
    simp only [lifeEvent, List.append_nil]
    exact hs.of_quiet hlifecycle rfl rfl (by simp [hpc]) (by simp) (fun _ => rfl) (by simp)
      (fun hexited _ => hs.ended hexited (by simp [hpc]))
  case openWake succeeds | listen succeeds =>
    obtain ⟨hpc, rfl⟩ := h
    simp only [lifeEvent, List.append_nil]
    have hcleared := hs.cleared (by simp [hpc])
    cases succeeds <;>
      exact hs.of_quiet hlifecycle rfl rfl (by simp [hpc]) id (fun _ => hcleared) (by simp)
        (fun hexited _ => hs.ended hexited (by simp [hpc]))
  case setRunning =>
    obtain ⟨hpc, rfl⟩ := h
    simp only [lifeEvent, List.append_nil]
    exact hs.of_quiet hlifecycle rfl rfl (by simp [hpc]) id (fun _ => hs.cleared (by simp [hpc]))
      (by simp) (by simp)
  case spawn succeeds =>
    obtain ⟨hpc, rfl⟩ := h
    simp only [lifeEvent, List.append_nil]
    cases succeeds with
    | false =>
      exact hs.of_quiet hlifecycle rfl rfl (by simp [hpc]) id (by simp) (by simp) (by simp)
    | true =>
      have hcleared := hs.cleared (by simp [hpc])
      by_cases hjoin : s.joinable = true
      · simp only [hjoin, not_true, if_false, if_true] at hlifecycle ⊢
        exact hs.of_quiet hlifecycle rfl hjoin.symm (by simp [hpc]) id (by simp) (by simp) (by simp)
      · simp only [hjoin, not_true, if_false] at hlifecycle ⊢
        refine ⟨hlifecycle, rfl, fun _ hrequested => ?_, by simp, by simp, by simp,
          fun hw => absurd (hs.gone hw).1 hjoin, by simp⟩
        simp [hcleared] at hrequested

def lifeEvents (capacity : ℕ) (as : List (Action ι)) : List LifeEvent :=
  trace step lifeEvent (new capacity) as

theorem exec_custody {capacity : ℕ} {as : List (Action ι)} {s : TcpServer ι}
    (h : exec step (new capacity) as = some s) : Custody (lifeEvents capacity as) s := by
  have hkeep : ∀ w (s : TcpServer ι) a t, Custody w s → s.step a = some t →
      Custody (w ++ lifeEvent s a) t := by
    intro w s a t hs hstep
    simp only [step, Option.ite_none_left_eq_some] at hstep
    cases a with
    | publish p event =>
      rw [show lifeEvent s (.publish p event) = [] from rfl, List.append_nil]
      exact publishStep_custody hs hstep.2
    | owner event => exact ownerStep_custody hs hstep.2
    | io event => exact ioStep_custody hs hstep.2
  exact exec_trace_invariant hkeep (new_custody capacity) h

/-- A `start` that finds a thread which ended by itself unattended gets past the running check
and would assign over it. -/
theorem start_unattended {s t : TcpServer ι} (hs : Custody w s) (hw : Unattended w)
    (h : s.step (.owner .start) = some t) : ¬ StartsJoined t := by
  simp only [step, ownerStep, Option.ite_none_left_eq_some, Option.ite_none_right_eq_some,
    Option.some.injEq] at h
  obtain ⟨-, hpc, rfl⟩ := h
  obtain ⟨hjoinable, hexited⟩ := hs.gone hw
  have hrunning := hs.ended hexited (by simp [hpc])
  simp [StartsJoined, hrunning, hjoinable]

theorem step_startsJoined {s t : TcpServer ι} {a : Action ι} (hs : Custody w s)
    (hsafe : StartsJoined s) (hattended : a = .owner .start → ¬ Unattended w)
    (h : s.step a = some t) : StartsJoined t := by
  obtain ⟨hnot, hjoined⟩ := hsafe
  simp only [step, Option.ite_none_left_eq_some] at h
  obtain ⟨-, h⟩ := h
  cases a with
  | publish p event =>
    obtain ⟨-, -, -, howner, -, hjoinable⟩ := publishStep_frame h
    rw [StartsJoined, howner, hjoinable]
    exact ⟨hnot, hjoined⟩
  | io event =>
    obtain ⟨-, howner, -, hjoinable⟩ := ioStep_threads h
    rw [StartsJoined, howner, hjoinable]
    exact ⟨hnot, hjoined⟩
  | owner event =>
    have hkeep : t.joinable = s.joinable → s.owner.pc.pastCheck = true →
        t.owner.pc ≠ .terminated → StartsJoined t := fun hsame hpast hdone =>
      ⟨hdone, fun _ => hsame.trans (hjoined hpast)⟩
    cases event <;> simp only [ownerStep, Option.ite_none_right_eq_some, Option.some.injEq,
      Option.map_eq_some_iff] at h
    case start =>
      obtain ⟨hpc, rfl⟩ := h
      cases hrunning : s.running with
      | true => simp [StartsJoined]
      | false =>
        refine ⟨by simp, fun _ => ?_⟩
        have hexited := hs.lifecycle.exited_of_down hrunning
        by_contra hjoin
        have hleft := hs.left hexited (by simpa using hjoin)
        exact hattended rfl (hleft.resolve_left (by simp [hpc]))
    case signal event =>
      obtain ⟨hpc, ⟨wake, next⟩, -, rfl⟩ := h
      cases next <;> simp [StartsJoined, hpc]
    case stop =>
      obtain ⟨-, rfl⟩ := h
      simp [StartsJoined]
    case join =>
      obtain ⟨-, rfl⟩ := h
      simp [StartsJoined]
    case clearConnected =>
      obtain ⟨-, rfl⟩ := h
      simp [StartsJoined]
    case resetEnds =>
      split_ifs at h with hpc hpc <;> obtain rfl := Option.some.inj h
      · simp [StartsJoined]
      · exact hkeep rfl (by simp [hpc]) (by simp)
    case clearPending | clearRunning =>
      split_ifs at h with hpc hpc <;> obtain rfl := Option.some.inj h
      · simp [StartsJoined]
      · exact hkeep rfl (by simp [hpc]) (by simp)
    case openWake succeeds | listen succeeds =>
      obtain ⟨hpc, rfl⟩ := h
      cases succeeds <;> exact hkeep rfl (by simp [hpc]) (by simp)
    case spawn succeeds =>
      obtain ⟨hpc, rfl⟩ := h
      have hjoin := hjoined (by simp [hpc])
      cases succeeds <;> simp [StartsJoined, hjoin]
    all_goals
      obtain ⟨hpc, rfl⟩ := h
      exact hkeep rfl (by simp [hpc]) (by simp)

/-- Over every run: the handle is safe in each state passed exactly if no `start` is called
while a thread that ended by itself is unattended. -/
theorem startsJoined_iff {capacity : ℕ} {as : List (Action ι)} {s : TcpServer ι}
    (hrun : exec step (new capacity) as = some s) :
    (∀ bs cs, as = bs ++ .owner .start :: cs → ¬ Unattended (lifeEvents capacity bs)) ↔
    ∀ bs t, bs <+: as → exec step (new capacity) bs = some t → StartsJoined t := by
  have hstep : ∀ bs (a : Action ι) u v, exec step (new capacity) bs = some u →
      StartsJoined u → u.step a = some v → (StartsJoined v ↔
        ¬ (a = .owner .start ∧ Unattended (lifeEvents capacity bs))) := by
    intro bs a u v hbs hsafe hv
    have hs := exec_custody hbs
    constructor
    · rintro hjoined ⟨rfl, hw⟩
      exact start_unattended hs hw hv hjoined
    · intro hnone
      exact step_startsJoined hs hsafe (fun ha hw => hnone ⟨ha, hw⟩) hv
  rw [← exec_prefix_iff (by simp [StartsJoined, new]) hstep hrun]
  constructor
  · rintro hattended bs a cs hsplit ⟨rfl, hw⟩
    exact hattended bs cs hsplit hw
  · intro hnone bs cs hsplit hw
    exact hnone bs _ cs hsplit ⟨rfl, hw⟩

end TcpServer

/-- Lifecycle safety of both components, over every run: no `start` gets past its running check
with a thread still to be joined, and none assigns over such a thread, exactly if no `start` is
called while a thread that ended by itself has not been attended to by a `stop`. -/
theorem start_finds_worker_joined {κ ι : Type*} [DecidableEq ι] (config : LidarConfig)
    (capacity : ℕ) :
    (∀ (as : List (Lidar.Action κ)) s, exec (Lidar.step config) Lidar.new as = some s →
      ((∀ bs cs callback, as = bs ++ .owner (.start (some callback)) :: cs →
        ¬ Unattended (Lidar.lifeEvents config bs)) ↔
      ∀ bs t, bs <+: as → exec (Lidar.step config) Lidar.new bs = some t →
        Lidar.StartsJoined t)) ∧
    ∀ (as : List (TcpServer.Action ι)) s,
      exec TcpServer.step (TcpServer.new capacity) as = some s →
      ((∀ bs cs, as = bs ++ .owner .start :: cs →
        ¬ Unattended (TcpServer.lifeEvents capacity bs)) ↔
      ∀ bs t, bs <+: as → exec TcpServer.step (TcpServer.new capacity) bs = some t →
        TcpServer.StartsJoined t) :=
  ⟨fun _ _ h => Lidar.startsJoined_iff h, fun _ _ h => TcpServer.startsJoined_iff h⟩

/-- The driver is started, stopped and started again, loses the sensor for good, is stopped once
the thread has ended, and started a third time. -/
def lidarAttendedActions : List (Lidar.Action Unit) :=
  Lidar.startActions () ++ Lidar.stopActions ++ Lidar.unpluggedActions ++
  ([.worker .exitRunning, .owner .stop, .owner .notify, .owner .join, .owner .close,
    .owner .clearRunning] : List (Lidar.Action Unit)) ++
  Lidar.startActions ()

def serverStopActions : List (TcpServer.Action Unit) :=
  [.owner .stop, .owner (.signal .proceed), .owner (.signal .proceed), .owner (.signal .written)]

def serverJoinActions : List (TcpServer.Action Unit) :=
  [.owner .join, .owner .resetEnds, .owner .clearPending, .owner .clearConnected,
    .owner .clearRunning]

/-- The server is started, stopped and started again, its thread ends as poll fails, and it is
stopped then, and started a third time. -/
def serverAttendedActions : List (TcpServer.Action Unit) :=
  TcpServer.startActions ++ serverStopActions ++
  ([.io .loadStop, .io .closeSession, .io .exitClear, .io .exitRunning] :
    List (TcpServer.Action Unit)) ++ serverJoinActions ++ TcpServer.startActions ++
  ([.io .loadStop, .io .prepare, .io (.pollFails false), .io .closeSession, .io .exitClear,
    .io .exitRunning] : List (TcpServer.Action Unit)) ++ serverStopActions ++ serverJoinActions ++
  TcpServer.startActions

theorem start_finds_worker_joined_attended :
    (∀ bs t, bs <+: lidarAttendedActions →
      exec (Lidar.step { autoReconnect := false }) Lidar.new bs = some t → Lidar.StartsJoined t) ∧
    ∀ bs t, bs <+: serverAttendedActions →
      exec TcpServer.step (TcpServer.new 4) bs = some t → TcpServer.StartsJoined t := by
  have hlidar : ((exec (Lidar.step { autoReconnect := false }) Lidar.new
      lidarAttendedActions).map fun s => s.joinable) = some true := by decide +kernel
  have hserver : ((exec TcpServer.step (TcpServer.new 4 : TcpServer Unit)
      serverAttendedActions).map fun s => s.joinable) = some true := by decide +kernel
  obtain ⟨l, hl, -⟩ := Option.map_eq_some_iff.mp hlidar
  obtain ⟨s, hs, -⟩ := Option.map_eq_some_iff.mp hserver
  have hboth := @start_finds_worker_joined Unit Unit _ { autoReconnect := false } 4
  refine ⟨(hboth.1 _ l hl).mp ?_, (hboth.2 _ s hs).mp ?_⟩
  · have hall : ∀ n < lidarAttendedActions.length,
        lidarAttendedActions[n]? = some (.owner (.start (some ()))) →
          ¬ Unattended (Lidar.lifeEvents { autoReconnect := false }
            (lidarAttendedActions.take n)) := by decide +kernel
    rintro bs cs ⟨⟩ hsplit
    have hbs := hall bs.length (by simp [hsplit]) (by simp [hsplit])
    rwa [hsplit, List.take_left] at hbs
  · have hall : ∀ n < serverAttendedActions.length,
        serverAttendedActions[n]? = some (.owner .start) →
          ¬ Unattended (TcpServer.lifeEvents 4 (serverAttendedActions.take n)) := by
      decide +kernel
    intro bs cs hsplit
    have hbs := hall bs.length (by simp [hsplit]) (by simp [hsplit])
    rwa [hsplit, List.take_left] at hbs

/-- The sensor is lost for good, the thread ends, and the owner starts the driver again. -/
def lidarRestartActions : List (Lidar.Action Unit) :=
  Lidar.unpluggedActions ++ [.worker .exitRunning] ++ Lidar.startActions ()

/-- Poll fails, the I/O thread ends, and the owner starts the server again. -/
def serverRestartActions : List (TcpServer.Action Unit) :=
  TcpServer.startActions ++ ([.io .loadStop, .io .prepare, .io (.pollFails false),
    .io .closeSession, .io .exitClear, .io .exitRunning] : List (TcpServer.Action Unit)) ++
  TcpServer.startActions

/-- Both assign over a joinable thread, which ends the program. -/
theorem start_assigns_over_joinable :
    (¬ ∀ (config : LidarConfig) (as : List (Lidar.Action Unit)) s,
      exec (Lidar.step config) Lidar.new as = some s → s.owner.pc ≠ .terminated) ∧
    ¬ ∀ (as : List (TcpServer.Action Unit)) s,
      exec TcpServer.step (TcpServer.new 4) as = some s → s.owner.pc ≠ .terminated := by
  constructor
  · intro hclaim
    have hrun : (exec (Lidar.step { autoReconnect := false }) Lidar.new lidarRestartActions).map
        (fun s => s.owner.pc) = some .terminated := by decide +kernel
    obtain ⟨s, hs, hterminated⟩ := Option.map_eq_some_iff.mp hrun
    exact hclaim _ _ s hs hterminated
  · intro hclaim
    have hrun : (exec TcpServer.step (TcpServer.new 4) serverRestartActions).map
        (fun s => s.owner.pc) = some .terminated := by decide +kernel
    obtain ⟨s, hs, hterminated⟩ := Option.map_eq_some_iff.mp hrun
    exact hclaim _ s hs hterminated

end AebNode
