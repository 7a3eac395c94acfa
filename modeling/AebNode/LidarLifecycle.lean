import AebNode.Lidar

/-! What the two threads of the lidar leave alone, and what holds while the acquisition thread
lives: the running flag is up, a callback is set, and the owner is at a place where it touches
neither. -/
namespace AebNode.Lidar
open Machine

variable {κ : Type*} {config : LidarConfig}

theorem setError_eq (s : Lidar κ) (message : String) :
    ∃ lastError, s.setError message = { s with lastError := lastError } := by
  cases h : message.isEmpty
  · exact ⟨message, by simp [setError, h]⟩
  · exact ⟨s.lastError, by simp [setError, h]⟩

/-- The acquisition thread never touches what the owner sets; it steps only while alive, and
takes the running flag down as it ends. -/
theorem workerStep_frame {s t : Lidar κ} {event : WorkerEvent}
    (h : s.workerStep config event = some t) :
    s.worker.pc ≠ .exited ∧ t.callback = s.callback ∧ t.owner = s.owner ∧
      t.joinable = s.joinable ∧ t.stopRequested = s.stopRequested ∧
      (t.running = s.running ∨ t.running = false ∧ t.worker.pc = .exited) := by
  cases event <;> simp only [workerStep, Option.ite_none_right_eq_some, Option.some.injEq] at h
  case acquire sdk =>
    obtain ⟨hpc, h⟩ := h
    refine ⟨by simp [hpc], ?_⟩
    split_ifs at h <;> obtain rfl := Option.some.inj h <;>
      exact ⟨rfl, rfl, rfl, rfl, Or.inl rfl⟩
  case setError =>
    obtain ⟨lastError, he⟩ := s.setError_eq s.worker.error
    rw [he] at h
    split_ifs at h with hpc hpc <;> obtain rfl := Option.some.inj h <;>
      exact ⟨by simp [hpc], rfl, rfl, rfl, rfl, Or.inl rfl⟩
  case checkStop =>
    obtain ⟨hpc, rfl⟩ := h
    refine ⟨by simp [hpc], ?_⟩
    split_ifs <;> exact ⟨rfl, rfl, rfl, rfl, Or.inl rfl⟩
  case exitRunning =>
    obtain ⟨hpc, rfl⟩ := h
    exact ⟨by simp [hpc], rfl, rfl, rfl, rfl, Or.inr ⟨rfl, rfl⟩⟩
  all_goals
    obtain ⟨hpc, rfl⟩ := h
    exact ⟨by simp [hpc], rfl, rfl, rfl, rfl, Or.inl rfl⟩

/-- The owner never touches the frame, its number or the counts of the thread; it wakes the
thread from its back-off or starts it anew, and nothing else. -/
theorem ownerStep_frame {s t : Lidar κ} {event : OwnerEvent κ}
    (h : s.ownerStep config event = some t) :
    t.frame = s.frame ∧ t.nextSequence = s.nextSequence ∧
      t.stats = { s.stats with connects := t.stats.connects } ∧
      (t.worker = s.worker ∨
        s.worker.pc = .blocked ∧ t.worker = { s.worker with pc := .testPredicate } ∨
        s.owner.pc = .startSpawn ∧ t.worker = { pc := .loopHead }) := by
  cases event <;> simp only [ownerStep, Option.ite_none_right_eq_some, Option.some.injEq] at h
  case notify =>
    obtain ⟨-, rfl⟩ := h
    by_cases hblocked : s.worker.pc = .blocked
    · simp [hblocked]
    · simp [hblocked]
  case spawn failure =>
    obtain ⟨hpc, rfl⟩ := h
    cases failure with
    | some what => exact ⟨rfl, rfl, rfl, Or.inl rfl⟩
    | none => exact ⟨rfl, rfl, rfl, Or.inr (Or.inr ⟨hpc, rfl⟩)⟩
  case assign =>
    obtain ⟨-, rfl⟩ := h
    split_ifs <;> exact ⟨rfl, rfl, rfl, Or.inl rfl⟩
  case setError =>
    obtain ⟨lastError, he⟩ := s.setError_eq s.owner.error
    rw [he] at h
    split_ifs at h <;> obtain rfl := Option.some.inj h <;>
      exact ⟨rfl, rfl, rfl, Or.inl rfl⟩
  case close =>
    split_ifs at h <;> obtain rfl := Option.some.inj h <;> exact ⟨rfl, rfl, rfl, Or.inl rfl⟩
  case clearRunning =>
    split_ifs at h <;> obtain rfl := Option.some.inj h <;> exact ⟨rfl, rfl, rfl, Or.inl rfl⟩
  all_goals
    obtain ⟨-, rfl⟩ := h
    exact ⟨rfl, rfl, rfl, Or.inl rfl⟩

/-- The places of the owner at which the acquisition thread may be alive. -/
@[simp] def OwnerPc.leavesThread : OwnerPc → Bool
  | .idle | .stopNotify | .stopJoin | .startSetError | .startAssign | .terminated => true
  | _ => false

/-- The owner has stored a callback and is on its way to the thread that will use it. -/
@[simp] def OwnerPc.prepares : OwnerPc → Bool
  | .startOpen | .startCountConnect | .startSetRunning | .startSpawn => true
  | _ => false

structure Supervised (s : Lidar κ) : Prop where
  live : s.worker.pc ≠ .exited →
    s.running = true ∧ s.callback.isSome = true ∧ s.owner.pc.leavesThread = true
  held : s.worker.pc ≠ .exited →
    s.joinable = true ∨ s.owner.pc = .startAssign ∨ s.owner.pc = .terminated
  given : s.owner.pc = .startClearStop → s.owner.callback.isSome = true
  prepared : s.owner.pc.prepares = true → s.callback.isSome = true
  spawning : s.owner.pc = .startSpawn → s.running = true

theorem Supervised.of_idle {s : Lidar κ}
    (hlive : s.worker.pc ≠ .exited → s.running = true ∧ s.callback.isSome = true ∧
      s.owner.pc.leavesThread = true)
    (hheld : s.worker.pc ≠ .exited →
      s.joinable = true ∨ s.owner.pc = .startAssign ∨ s.owner.pc = .terminated)
    (hgiven : s.owner.pc ≠ .startClearStop) (hprepares : s.owner.pc.prepares = false) :
    Supervised s where
  live := hlive
  held := hheld
  given h := absurd h hgiven
  prepared h := absurd h (hprepares ▸ Bool.false_ne_true)
  spawning h := by simp [h] at hprepares

/-- Without a live thread only the owner's own preparations count. -/
theorem Supervised.of_exited {s : Lidar κ} (hexited : s.worker.pc = .exited)
    (hgiven : s.owner.pc = .startClearStop → s.owner.callback.isSome = true)
    (hprepared : s.owner.pc.prepares = true → s.callback.isSome = true)
    (hspawning : s.owner.pc = .startSpawn → s.running = true) : Supervised s where
  live h := absurd hexited h
  held h := absurd hexited h
  given := hgiven
  prepared := hprepared
  spawning := hspawning

theorem new_supervised : Supervised (new : Lidar κ) :=
  .of_exited rfl (by simp [new]) (by simp [new]) (by simp [new])

theorem Supervised.exited_of_place {s : Lidar κ} (hs : Supervised s)
    (hplace : s.owner.pc.leavesThread = false) : s.worker.pc = .exited := by
  by_contra hlive
  rw [(hs.live hlive).2.2] at hplace
  cases hplace

theorem Supervised.exited_of_down {s : Lidar κ} (hs : Supervised s) (hdown : s.running = false) :
    s.worker.pc = .exited := by
  by_contra hlive
  rw [(hs.live hlive).1] at hdown
  cases hdown

theorem workerStep_supervised {s t : Lidar κ} {event : WorkerEvent} (hs : Supervised s)
    (h : s.workerStep config event = some t) : Supervised t := by
  obtain ⟨hpc, hcallback, howner, hjoinable, -, hrunning⟩ := workerStep_frame h
  obtain ⟨hup, hset, hplace⟩ := hs.live hpc
  refine ⟨fun hlive => ?_, fun _ => ?_, fun hown => ?_, fun _ => ?_, fun hown => ?_⟩
  · rcases hrunning with hsame | ⟨-, hexit⟩
    · rw [hsame, hcallback, howner]
      exact ⟨hup, hset, hplace⟩
    · exact absurd hexit hlive
  · rw [hjoinable, howner]
    exact hs.held hpc
  · rw [howner] at hown ⊢
    exact hs.given hown
  · rw [hcallback]
    exact hset
  · rw [howner] at hown
    rw [hown] at hplace
    cases hplace

theorem ownerStep_supervised {s t : Lidar κ} {event : OwnerEvent κ} (hs : Supervised s)
    (h : s.ownerStep config event = some t) : Supervised t := by
  have hheld : s.owner.pc ≠ .startAssign → s.owner.pc ≠ .terminated → s.worker.pc ≠ .exited →
      s.joinable = true := by
    intro hassign hterminated hlive
    simpa [hassign, hterminated] using hs.held hlive
  cases event <;> simp only [ownerStep, Option.ite_none_right_eq_some, Option.some.injEq] at h
  case stop =>
    obtain ⟨hpc, rfl⟩ := h
    refine .of_idle (fun hlive => ?_) (fun hlive => ?_) (by simp) rfl
    · exact ⟨(hs.live hlive).1, (hs.live hlive).2.1, rfl⟩
    · exact Or.inl (hheld (by simp [hpc]) (by simp [hpc]) hlive)
  case notify =>
    obtain ⟨hpc, rfl⟩ := h
    have hlived : (if s.worker.pc = .blocked then { s.worker with pc := .testPredicate }
        else s.worker).pc ≠ .exited → s.worker.pc ≠ .exited := by
      split_ifs with hblocked
      · simp [hblocked]
      · exact id
    refine .of_idle (fun hlive => ?_) (fun hlive => ?_) (by simp) rfl
    · exact ⟨(hs.live (hlived hlive)).1, (hs.live (hlived hlive)).2.1, rfl⟩
    · exact Or.inl (hheld (by simp [hpc]) (by simp [hpc]) (hlived hlive))
  case join =>
    obtain ⟨⟨hpc, hexited⟩, rfl⟩ := h
    -- The thread that is joined has ended, and one that lives is joinable.
    have hgone : s.worker.pc = .exited := by
      by_contra hlive
      exact hlive (hexited (hheld (by simp [hpc]) (by simp [hpc]) hlive))
    exact .of_exited hgone (by simp) (by simp) (by simp)
  case close =>
    split_ifs at h with hpc hpc <;> obtain rfl := Option.some.inj h <;>
      exact .of_exited (hs.exited_of_place (by simp [hpc])) (by simp)
        (by simp) (by simp)
  case clearRunning =>
    split_ifs at h with hpc hpc <;> obtain rfl := Option.some.inj h <;>
      exact .of_exited (hs.exited_of_place (by simp [hpc])) (by simp)
        (by simp) (by simp)
  case start callback =>
    obtain ⟨hpc, rfl⟩ := h
    have hjoinable := hheld (by simp [hpc]) (by simp [hpc])
    split_ifs with hempty hrunning
    · refine .of_idle (fun hlive => ?_) (fun hlive => Or.inl (hjoinable hlive)) (by simp) rfl
      exact ⟨(hs.live hlive).1, (hs.live hlive).2.1, rfl⟩
    · refine .of_idle (fun hlive => ?_) (fun hlive => Or.inl (hjoinable hlive)) (by simp) rfl
      exact ⟨(hs.live hlive).1, (hs.live hlive).2.1, rfl⟩
    · refine .of_exited (hs.exited_of_down (by simpa using hrunning)) (fun _ => ?_) (by simp)
        (by simp)
      simpa [Option.isSome_iff_ne_none] using hempty
  case clearStop =>
    obtain ⟨hpc, rfl⟩ := h
    exact .of_exited (hs.exited_of_place (by simp [hpc])) (by simp)
      (fun _ => hs.given hpc) (by simp)
  case «open» sdk =>
    obtain ⟨hpc, rfl⟩ := h
    have hset := hs.prepared (by simp [hpc])
    refine .of_exited (hs.exited_of_place (by simp [hpc])) ?_ (fun _ => hset) ?_ <;>
      cases (s.device.open config sdk).2 <;> simp
  case countConnect =>
    obtain ⟨hpc, rfl⟩ := h
    exact .of_exited (hs.exited_of_place (by simp [hpc])) (by simp)
      (fun _ => hs.prepared (by simp [hpc])) (by simp)
  case setRunning =>
    obtain ⟨hpc, rfl⟩ := h
    exact .of_exited (hs.exited_of_place (by simp [hpc])) (by simp)
      (fun _ => hs.prepared (by simp [hpc])) (by simp)
  case spawn failure =>
    obtain ⟨hpc, rfl⟩ := h
    cases failure with
    | some what =>
      exact .of_exited (hs.exited_of_place (by simp [hpc])) (by simp)
        (by simp) (by simp)
    | none =>
      refine .of_idle (fun _ => ?_) (fun _ => Or.inr (Or.inl rfl)) (by simp) rfl
      exact ⟨hs.spawning hpc, hs.prepared (by simp [hpc]), rfl⟩
  case assign =>
    obtain ⟨hpc, rfl⟩ := h
    split_ifs with hjoinable
    · refine .of_idle (fun hlive => ?_) (fun _ => Or.inr (Or.inr rfl)) (by simp) rfl
      exact ⟨(hs.live hlive).1, (hs.live hlive).2.1, rfl⟩
    · refine .of_idle (fun hlive => ?_) (fun _ => Or.inl rfl) (by simp) rfl
      exact ⟨(hs.live hlive).1, (hs.live hlive).2.1, rfl⟩
  case setError =>
    obtain ⟨lastError, he⟩ := s.setError_eq s.owner.error
    rw [he] at h
    split_ifs at h with hpc hpc <;> obtain rfl := Option.some.inj h
    · refine .of_idle (fun hlive => ?_) (fun hlive => Or.inl ?_) (by simp) rfl
      · exact ⟨(hs.live hlive).1, (hs.live hlive).2.1, rfl⟩
      · exact hheld (by simp [hpc]) (by simp [hpc]) hlive
    · exact .of_exited (hs.exited_of_place (by simp [hpc])) (by simp)
        (by simp) (by simp)

theorem step_supervised {s t : Lidar κ} {a : Action κ} (hs : Supervised s)
    (h : s.step config a = some t) : Supervised t := by
  simp only [step, Option.ite_none_left_eq_some] at h
  cases a with
  | worker event => exact workerStep_supervised hs h.2
  | owner event => exact ownerStep_supervised hs h.2

end AebNode.Lidar
