import AebNode.ServiceOrder

/-! The order of `Application::run` over all its runs: the callback executes only between the
start of its consumers and the beginning of their end, and `run` returns with every thread joined
and every descriptor closed. -/
namespace AebNode.Application
open CommandLine Machine Protocol

variable {options : Options} {w : List Milestone}

/-- What holds of each component, told from the place of the main thread. -/
theorem Wired.place {s : Application} {pc : Pc} (hs : Wired options w s) (hpc : s.pc = pc) :
    s.hasLidar = pc.holdsLidar ∧ LidarAt pc s.lidar ∧ ServerAt pc s.server s.listening ∧
      CanAt pc s.canBus ∧ MilestonesAt options.noCan pc w := by
  subst hpc
  exact ⟨hs.held, hs.lidar, hs.server, hs.canBus, hs.reached⟩

theorem Wired.move {s t : Application} (hs : Wired options w s) (hlidar : t.lidar = s.lidar)
    (hserver : t.server = s.server) (hcanBus : t.canBus = s.canBus)
    (hheld : t.hasLidar = t.pc.holdsLidar) (hlidarAt : LidarAt t.pc s.lidar)
    (hserverAt : ServerAt t.pc s.server t.listening) (hcanAt : CanAt t.pc s.canBus)
    (hreached : MilestonesAt options.noCan t.pc w) : Wired options w t where
  supervised := hlidar ▸ hs.supervised
  lifecycle := hserver ▸ hs.lifecycle
  lidarWinding := hlidar ▸ hs.lidarWinding
  serverWinding := hserver ▸ hs.serverWinding
  owned := hcanBus ▸ hs.owned
  held := hheld
  lidar := hlidar ▸ hlidarAt
  server := hserver ▸ hserverAt
  canBus := hcanBus ▸ hcanAt
  reached := hreached
  ordered := hs.ordered

theorem Wired.shutdown {s : Application} {exitCode : Option ℕ} (hs : Wired options w s)
    (hpc : s.pc = .waitSignal ∨ s.pc = .checkRunning) :
    Wired options w { s with exitCode := exitCode }.shutdown := by
  rcases hpc with hpc | hpc <;>
  · rcases hs.place hpc with ⟨hheld, hlidar, hserver, -, hreached⟩
    simp only [Pc.holdsLidar, LidarAt] at hheld hlidar
    refine hs.move rfl rfl rfl ?_ ?_ ?_ ?_ ?_ <;> simp only [Application.shutdown, hheld, if_true]
    · rfl
    · simp [LidarAt, hlidar]
    · exact hserver
    · trivial
    · exact hreached

theorem wait_wired {s t : Application} {result : WaitResult} (hs : Wired options w s)
    (h : s.mainStep options (.wait result) = some t) : Wired options w t := by
  simp only [mainStep, Option.ite_none_right_eq_some, Option.some.injEq] at h
  rcases h with ⟨hpc, rfl⟩
  rcases hs.place hpc with ⟨hheld, hlidar, hserver, -, hreached⟩
  cases result with
  | signal number =>
    cases number with
    | int => exact hs.shutdown (Or.inl hpc)
    | term => exact hs.shutdown (Or.inl hpc)
    | pipe => exact hs
  | interrupted => exact hs
  | timedOut => exact hs.move rfl rfl rfl hheld hlidar hserver trivial hreached

theorem checkRunning_wired {s t : Application} (hs : Wired options w s)
    (h : s.mainStep options .checkRunning = some t) : Wired options w t := by
  simp only [mainStep, Option.ite_none_right_eq_some, Option.some.injEq] at h
  rcases h with ⟨hpc, rfl⟩
  rcases hs.place hpc with ⟨hheld, hlidar, hserver, -, hreached⟩
  split_ifs
  · exact hs.move rfl rfl rfl hheld hlidar hserver trivial hreached
  · exact hs.shutdown (Or.inr hpc)

theorem openCan_wired {s t : Application} {kernel : CanBringUp} (hs : Wired options w s)
    (h : s.mainStep options (.openCan kernel) = some t) :
    Wired options (w ++ milestone options s (.main (.openCan kernel))) t := by
  simp only [mainStep, Option.ite_none_right_eq_some] at h
  rcases h with ⟨hpc, h⟩
  rcases hs.place hpc with ⟨hheld, hlidar, hserver, hclosed, -⟩
  cases hcan : options.noCan with
  | true =>
    rw [if_pos hcan] at h
    obtain rfl := Option.some.inj h
    simp only [milestone, hcan, Bool.true_eq_false, false_and, if_false, List.append_nil]
    refine hs.move rfl rfl rfl hheld hlidar ?_ trivial ?_
    · exact fun _ => hserver.1
    · simp [MilestonesAt, hcan]
  | false =>
    rw [if_neg (by simp [hcan])] at h
    obtain rfl := Option.some.inj h
    rcases CanBus.open_spec options.canbus kernel hs.owned hclosed with
      ⟨howned, hopen⟩
    cases hok : (s.canBus.open options.canbus kernel).2 with
    | true =>
      simp only [milestone, hcan, hok, and_self, if_true]
      exact { hs with
        owned := howned
        held := hheld
        lidar := hlidar
        server := fun _ => hserver.1
        canBus := trivial
        reached := fun _ => canUp_opened w
        ordered := hs.ordered.concat (by simp) }
    | false =>
      simp only [milestone, hok, Bool.false_eq_true, and_false, if_false, List.append_nil]
      exact { hs with
        owned := howned
        held := hheld
        lidar := hlidar
        server := hserver
        canBus := hopen.trans hok
        reached := trivial }

theorem closeCan_wired {s t : Application} (hs : Wired options w s)
    (h : s.mainStep options .closeCan = some t) :
    Wired options (w ++ milestone options s (.main .closeCan)) t := by
  simp only [mainStep, Option.ite_none_right_eq_some, Option.some.injEq] at h
  rcases h with ⟨hpc, rfl⟩
  rcases hs.place hpc with ⟨hheld, hlidar, hserver, -, -⟩
  simp only [Pc.holdsLidar] at hheld
  rcases CanBus.close_spec hs.owned with ⟨howned, hclosed⟩
  have hordered : Ordered options.noCan (w ++ [.canClosing]) := hs.ordered.concat (by simp)
  cases s.leaving with
  | run =>
    simp only [leave]
    exact { hs with
      owned := howned, held := hheld, lidar := hlidar, server := hserver, canBus := hclosed
      reached := trivial, ordered := hordered }
  | destructor =>
    simp only [leave, shutdown, hheld, Bool.false_eq_true, if_false]
    exact { hs with
      owned := howned, held := rfl, lidar := hlidar
      server := ⟨by simp [hserver.1], fun _ => hserver.2.2⟩
      canBus := trivial, reached := trivial, ordered := hordered }
  | members =>
    simp only [leave]
    exact { hs with
      owned := howned, held := hheld, lidar := hlidar, server := hserver, canBus := hclosed
      reached := trivial, ordered := hordered }

/-- The steps of the main thread between two calls that nothing is noted of. -/
theorem mainStep_quiet {s t : Application} {event : MainEvent} (hs : Wired options w s)
    (hevent : event = .run ∨ event = .destroy ∨ (∃ succeeds, event = .installSignals succeeds) ∨
      event = .constructLidar)
    (h : s.mainStep options event = some t) : Wired options w t := by
  rcases hevent with rfl | rfl | ⟨succeeds, rfl⟩ | rfl <;>
    simp only [mainStep, Option.ite_none_right_eq_some, Option.some.injEq] at h <;>
    rcases h with ⟨hpc, rfl⟩ <;>
    rcases hs.place hpc with ⟨hheld, hlidar, hserver, hclosed, hreached⟩ <;>
    simp only [Pc.holdsLidar] at hheld
  · exact hs.move rfl rfl rfl hheld hlidar hserver hclosed trivial
  · simp only [shutdown, hheld, Bool.false_eq_true, if_false]
    exact hs.move rfl rfl rfl rfl hlidar ⟨by simp [hserver.1], fun _ => hserver.2.2⟩ trivial trivial
  · cases succeeds with
    | true => exact hs.move rfl rfl rfl hheld hlidar hserver hclosed trivial
    | false => exact hs.move rfl rfl rfl hheld hlidar hserver hclosed trivial
  · exact { hs with
      supervised := Lidar.new_supervised
      lidarWinding := .of_before rfl
      held := rfl
      lidar := ⟨fun _ => rfl, rfl⟩
      server := hserver
      canBus := trivial
      reached := hreached }

/-- Within `stop` the listening socket is closed from the join on. -/
theorem listeningAfter_stops {s : Application} {server : TcpServer Unit}
    {event : TcpServer.OwnerEvent} (hstops : s.server.owner.pc.stops = true)
    (hclosed : s.server.owner.pc.joined = true → s.listening = false)
    (h : s.server.ownerStep event = some server)
    (hjoined : s.server.owner.pc.joined = true ∨ server.owner.pc.joined = true) :
    s.listeningAfter event = false := by
  by_cases hj : s.server.owner.pc.joined = true
  · have hdown := hclosed hj
    cases event <;> simp only [listeningAfter, hdown, ite_self]
    case listen succeeds =>
      simp only [TcpServer.ownerStep, Option.ite_none_right_eq_some] at h
      simp [h.1] at hj
  · have hnow := hjoined.resolve_left hj
    cases event <;> simp only [TcpServer.ownerStep, Option.ite_none_right_eq_some,
      Option.some.injEq, Option.map_eq_some_iff] at h
    case join => rfl
    case signal event =>
      rcases h with ⟨hpc, ⟨_, next⟩, -, rfl⟩
      cases next <;> simp [hpc] at hnow
    case resetEnds => split_ifs at h with hpc hpc <;> simp [hpc] at hj hstops
    case clearPending => split_ifs at h with hpc hpc <;> simp [hpc] at hj hstops
    case clearRunning => split_ifs at h with hpc hpc <;> simp [hpc] at hj hstops
    case stop =>
      rcases h with ⟨-, rfl⟩
      simp at hnow
    case start =>
      rcases h with ⟨-, rfl⟩
      cases hrunning : s.server.running <;> simp [hrunning] at hnow
    all_goals simp [h.1] at hj hstops

theorem milestone_server (options : Options) (s : Application) (event : TcpServer.OwnerEvent) :
    milestone options s (.main (.server event)) = [] ∨
      milestone options s (.main (.server event)) = [.serverStopping] ∨
      milestone options s (.main (.server event)) = [.serverStarted] := by
  cases event <;> simp only [milestone, true_or, or_true]
  case spawn succeeds => split_ifs <;> simp

theorem Ordered.server {s : Application} {event : TcpServer.OwnerEvent} {noCan : Bool}
    (hw : Ordered noCan w) : Ordered noCan (w ++ milestone options s (.main (.server event))) := by
  rcases milestone_server options s event with h | h | h <;> rw [h]
  · rwa [List.append_nil]
  · exact hw.concat (by simp)
  · exact hw.concat (by simp)

theorem canUp_server {s : Application} {event : TcpServer.OwnerEvent} (hw : CanUp w) :
    CanUp (w ++ milestone options s (.main (.server event))) := by
  rcases milestone_server options s event with h | h | h <;> rw [h]
  · rwa [List.append_nil]
  · exact (canUp_other rfl).mpr hw
  · exact (canUp_other rfl).mpr hw

theorem spawn_started (options : Options) {s : Application} {server : TcpServer Unit}
    (h : s.server.ownerStep (.spawn true) = some server) (hidle : server.owner.pc = .idle) :
    milestone options s (.main (.server (.spawn true))) = [.serverStarted] := by
  simp only [TcpServer.ownerStep, Option.ite_none_right_eq_some, Option.some.injEq] at h
  rcases h with ⟨-, rfl⟩
  cases hjoinable : s.server.joinable with
  | true => simp [hjoinable] at hidle
  | false => simp [milestone, hjoinable]

theorem startServer_wired {s : Application} {server : TcpServer Unit}
    {event : TcpServer.OwnerEvent} (hs : Wired options w s) (hpc : s.pc = .startServer)
    (hcall : s.server.owner.pc = .idle → event = .start)
    (h : s.server.ownerStep event = some server) :
    Wired options (w ++ milestone options s (.main (.server event)))
      ({ s with server := server, listening := s.listeningAfter event }.serverReturns event) := by
  rcases hs.place hpc with ⟨hheld, hlidar, hserver, -, hreached⟩
  simp only [Pc.holdsLidar] at hheld
  have hstarts := TcpServer.ownerStep_starts hserver hcall h
  have hlifecycle := TcpServer.ownerStep_lifecycle hs.lifecycle h
  have hwinding : server.Winding := by
    intro hj
    have hidle := hstarts (TcpServer.OwnerPc.joined_stops hj)
    simp [hidle] at hj
  have hcan : options.noCan = false → CanUp (w ++ milestone options s (.main (.server event))) :=
    fun hno => canUp_server (hreached hno)
  unfold serverReturns
  by_cases hidle : server.owner.pc = .idle
  · by_cases hspawn : event = .spawn true
    · subst hspawn
      have hstarted := spawn_started options h hidle
      simp only [hidle, hpc, ne_eq, not_true_eq_false, if_false, reduceCtorEq, if_true]
      exact { hs with
        lifecycle := hlifecycle
        serverWinding := hwinding
        held := hheld
        lidar := hlidar
        server := hidle
        canBus := trivial
        reached := ⟨hstarted ▸ serverUp_started w, hcan⟩
        ordered := hs.ordered.server }
    · simp only [hidle, hpc, hspawn, ne_eq, not_true_eq_false, if_false, reduceCtorEq, shutdown,
        hheld, Bool.false_eq_true]
      exact { hs with
        lifecycle := hlifecycle
        serverWinding := hwinding
        held := rfl
        lidar := hlidar
        server := ⟨by simp [hidle], by simp [hidle]⟩
        canBus := trivial
        reached := trivial
        ordered := hs.ordered.server }
  · rw [if_pos hidle]
    exact { hs with
      lifecycle := hlifecycle
      serverWinding := hwinding
      held := hheld.trans (by rw [hpc]; rfl)
      lidar := hpc ▸ hlidar
      server := hpc ▸ hstarts
      canBus := hpc ▸ trivial
      reached := hpc ▸ hcan
      ordered := hs.ordered.server }

theorem stopServer_wired {s : Application} {server : TcpServer Unit}
    {event : TcpServer.OwnerEvent} (hs : Wired options w s) (hpc : s.pc = .stopServer)
    (hcall : s.server.owner.pc = .idle → event = .stop)
    (h : s.server.ownerStep event = some server) :
    Wired options (w ++ milestone options s (.main (.server event)))
      ({ s with server := server, listening := s.listeningAfter event }.serverReturns event) := by
  rcases hs.place hpc with ⟨hheld, hlidar, hserver, -, -⟩
  simp only [Pc.holdsLidar] at hheld
  rcases TcpServer.ownerStep_stops hs.serverWinding hserver.1 hcall h with
    ⟨hwinding, hstops, hreturns⟩
  have hlifecycle := TcpServer.ownerStep_lifecycle hs.lifecycle h
  have hclosed := listeningAfter_stops hserver.1 hserver.2 h
  unfold serverReturns
  by_cases hidle : server.owner.pc = .idle
  · rcases hreturns hidle with ⟨hbehind, hjoined⟩
    simp only [hidle, hpc, ne_eq, not_true_eq_false, if_false, if_true]
    exact { hs with
      lifecycle := hlifecycle
      serverWinding := hwinding
      held := hheld
      lidar := hlidar
      server := ⟨hidle, hlifecycle.released hjoined hidle, hclosed (Or.inl hbehind)⟩
      canBus := trivial
      reached := trivial
      ordered := hs.ordered.server }
  · rw [if_pos hidle]
    exact { hs with
      lifecycle := hlifecycle
      serverWinding := hwinding
      held := hheld.trans (by rw [hpc]; rfl)
      lidar := hpc ▸ hlidar
      server := hpc ▸ ⟨hstops, fun hj => hclosed (Or.inr hj)⟩
      canBus := hpc ▸ trivial
      reached := hpc ▸ trivial
      ordered := hs.ordered.server }

theorem startLidar_wired {s : Application} {lidar : Lidar Unit} {event : Lidar.OwnerEvent Unit}
    (hs : Wired options w s) (hpc : s.pc = .startLidar)
    (hcall : s.lidar.owner.pc = .idle → event = .start (some ()))
    (h : s.lidar.ownerStep options.lidar event = some lidar) :
    Wired options w ({ s with lidar := lidar }.lidarReturns event) := by
  rcases hs.place hpc with ⟨hheld, hlidar, hserver, -, hreached⟩
  simp only [Pc.holdsLidar] at hheld
  rcases Lidar.ownerStep_starts hlidar.1 hlidar.2 (fun hidle => ⟨_, hcall hidle⟩) h with
    ⟨hstarts, hjoinable⟩
  have hsupervised := Lidar.ownerStep_supervised hs.supervised h
  have hwinding : lidar.Winding := by
    apply Lidar.Winding.of_before
    cases hj : lidar.owner.pc.joined with
    | false => rfl
    | true =>
      have hidle := hstarts (Lidar.OwnerPc.joined_stops hj)
      simp [hidle] at hj
  unfold lidarReturns
  by_cases hidle : lidar.owner.pc = .idle
  · by_cases hassign : event = .assign
    · simp only [hidle, hpc, hassign, ne_eq, not_true_eq_false, if_false, reduceCtorEq, if_true]
      exact { hs with
        supervised := hsupervised
        lidarWinding := hwinding
        held := hheld
        lidar := hidle
        server := hserver
        canBus := trivial
        reached := hreached }
    · simp only [hidle, hpc, hassign, ne_eq, not_true_eq_false, if_false, reduceCtorEq]
      exact { hs with
        supervised := hsupervised
        lidarWinding := hwinding
        held := hheld
        lidar := by simp [LidarAt, hidle]
        server := hserver
        canBus := trivial
        reached := hreached }
  · rw [if_pos hidle]
    exact { hs with
      supervised := hsupervised
      lidarWinding := hwinding
      held := hheld.trans (by rw [hpc]; rfl)
      lidar := hpc ▸ ⟨hstarts, hjoinable hidle⟩
      server := hpc ▸ hserver
      canBus := hpc ▸ trivial
      reached := hpc ▸ hreached }

/-- One step of `lidar_->stop()` or of that in `~Lidar`, its return included: the thread is
joined before the server is touched. -/
theorem stopLidar_wired {s : Application} {lidar : Lidar Unit} {event : Lidar.OwnerEvent Unit}
    (hs : Wired options w s) (hpc : s.pc = .stopLidar ∨ s.pc = .destroyLidar)
    (hcall : s.lidar.owner.pc = .idle → event = .stop)
    (h : s.lidar.ownerStep options.lidar event = some lidar) :
    Wired options w ({ s with lidar := lidar }.lidarReturns event) := by
  have hplace : s.hasLidar = true ∧ s.lidar.owner.pc.stops = true ∧ s.server.owner.pc = .idle ∧
      ConsumersUp options.noCan w := by
    rcases hpc with hpc | hpc <;>
    · rcases hs.place hpc with ⟨hheld, hlidar, hserver, -, hreached⟩
      exact ⟨hheld, hlidar, hserver, hreached⟩
  rcases hplace with ⟨hheld, hstops, hserver, hreached⟩
  rcases Lidar.ownerStep_stops hs.supervised hs.lidarWinding hstops hcall h with
    ⟨hwinding, hstops', hreleased⟩
  have hsupervised := Lidar.ownerStep_supervised hs.supervised h
  unfold lidarReturns
  by_cases hidle : lidar.owner.pc = .idle
  · rcases hpc with hpc | hpc <;>
      simp only [hidle, hpc, ne_eq, not_true_eq_false, if_false, if_true, reduceCtorEq]
    · exact { hs with
        supervised := hsupervised
        lidarWinding := hwinding
        held := hheld
        lidar := hstops'
        server := hserver
        canBus := trivial
        reached := hreached }
    · have hgone := hreleased hidle
      rw [releaseLidar, if_neg (by simp [hgone.joined])]
      exact { hs with
        supervised := .of_exited hgone.exited (by simp [hidle]) (by simp [hidle]) (by simp [hidle])
        lidarWinding := .of_before (by simp [hidle])
        held := rfl
        lidar := ⟨hidle, hgone.exited, hgone.joined, by simp, by simp⟩
        server := ⟨by simp [hserver], by simp [hserver]⟩
        canBus := trivial
        reached := trivial }
  · rw [if_pos hidle]
    exact { hs with
      supervised := hsupervised
      lidarWinding := hwinding
      lidar := by rcases hpc with hpc | hpc <;> exact hpc ▸ hstops' }

theorem serverCall_isSome {pc : Pc} (h : (serverCall pc).isSome = true) :
    pc = .startServer ∨ pc = .stopServer := by
  cases pc <;> simp [serverCall] at h ⊢

theorem lidarCall_isSome {pc : Pc} (h : (lidarCall pc).isSome = true) :
    pc = .startLidar ∨ pc = .stopLidar ∨ pc = .destroyLidar := by
  cases pc <;> simp [lidarCall] at h ⊢

theorem mainStep_wired {s t : Application} {event : MainEvent} (hs : Wired options w s)
    (h : s.mainStep options event = some t) :
    Wired options (w ++ milestone options s (.main event)) t := by
  cases event with
  | run => exact (List.append_nil w).symm ▸ mainStep_quiet hs (by simp) h
  | destroy => exact (List.append_nil w).symm ▸ mainStep_quiet hs (by simp) h
  | installSignals succeeds => exact (List.append_nil w).symm ▸ mainStep_quiet hs (by simp) h
  | constructLidar => exact (List.append_nil w).symm ▸ mainStep_quiet hs (by simp) h
  | wait result => exact (List.append_nil w).symm ▸ wait_wired hs h
  | checkRunning => exact (List.append_nil w).symm ▸ checkRunning_wired hs h
  | openCan kernel => exact openCan_wired hs h
  | closeCan => exact closeCan_wired hs h
  | server event =>
    simp only [mainStep, Option.ite_none_right_eq_some] at h
    rcases h with ⟨⟨hsome, hcall⟩, h⟩
    rcases Option.map_eq_some_iff.mp h with ⟨server, hserver, rfl⟩
    have hstep := (Option.ite_none_left_eq_some.mp hserver).2
    rcases serverCall_isSome hsome with hpc | hpc <;>
      simp only [hpc, serverCall, Option.some.injEq] at hcall
    · exact startServer_wired hs hpc (fun hidle => (hcall.mp hidle).symm) hstep
    · exact stopServer_wired hs hpc (fun hidle => (hcall.mp hidle).symm) hstep
  | lidar event =>
    simp only [mainStep, Option.ite_none_right_eq_some] at h
    rcases h with ⟨⟨hsome, hcall⟩, h⟩
    rcases Option.map_eq_some_iff.mp h with ⟨lidar, hlidar, rfl⟩
    have hstep := (Option.ite_none_left_eq_some.mp hlidar).2
    rw [show milestone options s (.main (.lidar event)) = [] from rfl, List.append_nil]
    rcases lidarCall_isSome hsome with hpc | hpc <;>
      simp only [hpc, lidarCall, Option.some.injEq] at hcall
    · exact startLidar_wired hs hpc (fun hidle => (hcall.mp hidle).symm) hstep
    · rcases hpc with hpc | hpc <;> simp only [hpc, Option.some.injEq] at hcall
      · exact stopLidar_wired hs (Or.inl hpc) (fun hidle => (hcall.mp hidle).symm) hstep
      · exact stopLidar_wired hs (Or.inr hpc) (fun hidle => (hcall.mp hidle).symm) hstep

theorem exec_wired {capacity : ℕ} {as : List Action} {s : Application}
    (h : exec (step options) (new capacity) as = some s) :
    Wired options (milestones options capacity as) s := by
  have hkeep : ∀ w (s : Application) a t, Wired options w s → s.step options a = some t →
      Wired options (w ++ milestone options s a) t := by
    intro w s a t hs hstep
    have hstep := (Option.ite_none_left_eq_some.mp hstep).2
    cases a with
    | main event => exact mainStep_wired hs hstep
    | acquisition event => exact acquisitionStep_wired hs hstep
    | callback event => exact callbackStep_wired hs hstep
    | io event =>
      rcases Option.map_eq_some_iff.mp hstep with ⟨server, hserver, rfl⟩
      exact (List.append_nil w).symm ▸ ioStep_wired hs (Option.ite_none_left_eq_some.mp hserver).2
  exact exec_trace_invariant hkeep (new_wired capacity) h

/-- Outside `run`, and once destroyed, nothing of the node is left. -/
theorem Wired.atRest {s : Application} (hs : Wired options w s)
    (hpc : s.pc = .outside ∨ s.pc = .destroyed) : AtRest s := by
  rcases hpc with hpc | hpc <;>
  · rcases hs.place hpc with ⟨-, hlidar, hserver, hclosed, -⟩
    simp only [CanAt] at hclosed
    have hfd : s.canBus.fd = none := by simpa [CanBus.isOpen] using hclosed
    have hsockets : s.canBus.sockets = [] := by simpa [CanBus.Owned, hfd] using hs.owned
    exact ⟨hlidar.2, hserver.2.1, hserver.2.2, hclosed, hsockets⟩

/-- Over every run of the application: the callback takes each of its steps, and is under way,
only between the start of its consumers and the beginning of their end, and `run` and the
destructor return with nothing left. -/
theorem callback_within_service {capacity : ℕ} {as : List Action} {s : Application}
    (h : exec (step options) (new capacity) as = some s) :
    (∀ v, v ++ [.callback] <+: milestones options capacity as → ConsumersUp options.noCan v) ∧
      (s.lidar.worker.pc = .inCallback →
        ConsumersUp options.noCan (milestones options capacity as)) ∧
      (s.pc = .outside ∨ s.pc = .destroyed → AtRest s) := by
  have hs := exec_wired h
  exact ⟨hs.ordered, fun hpc => (hs.consumersUp (by simp [hpc])).1, hs.atRest⟩

def oneReturn : Revolution := ⟨⟨true, .ok⟩, [⟨16384, 2000, 47⟩]⟩
def oneReturnFrame : Frame := ⟨0, 0, [⟨0x42B40000, 0x43FA0000, 47⟩]⟩

/-- Start-up; the first delivery overtakes the return of `lidar_->start()`. -/
def startActions : List Action :=
  [.main .run, .main (.installSignals true), .main (.openCan ⟨.ok 3, .ok (), .ok ()⟩),
    .main (.server .start), .main (.server .clearStop), .main (.server (.openWake true)),
    .main (.server (.listen true)), .main (.server .setRunning), .main (.server (.spawn true)),
    .main .constructLidar, .main (.lidar (.start (some ()))), .main (.lidar .clearStop),
    .main (.lidar (.open Lidar.goodBringUp)), .main (.lidar .countConnect),
    .main (.lidar .setRunning), .main (.lidar (.spawn none)), .acquisition .loadStop,
    .acquisition (.acquire oneReturn), .acquisition (.deliver ⟨0, by decide⟩),
    .callback (.publish (.call oneReturnFrame)), .main (.lidar .assign)]

/-- SIGTERM in the middle of the callback; `stop` waits for the thread. -/
def stopActions : List Action :=
  [.main (.wait (.signal .term)), .main (.lidar .stop), .main (.lidar .notify),
    .callback (.publish .loadConnected), .callback (.publish .discard), .callback (.decide true),
    .acquisition (.callbackEnds false), .acquisition .countDelivered, .acquisition .loadStop,
    .acquisition .closeOnExit, .acquisition .exitRunning, .main (.lidar .join),
    .main (.lidar .close), .main (.lidar .clearRunning), .main (.lidar .stop),
    .main (.lidar .notify), .main (.lidar .join), .main (.lidar .close),
    .main (.lidar .clearRunning), .main (.server .stop), .main (.server (.signal .proceed)),
    .main (.server (.signal .proceed)), .main (.server (.signal .written)), .io .loadStop,
    .io .closeSession, .io .exitClear, .io .exitRunning, .main (.server .join),
    .main (.server .resetEnds), .main (.server .clearPending), .main (.server .clearConnected),
    .main (.server .clearRunning), .main .closeCan]

/-- The brake message of the one frame leaves the node before the bus is closed. -/
theorem callback_within_service_signalled :
    ∃ s, exec (step {}) (new 4) (startActions ++ stopActions) = some s ∧
      s.exitCode = some kExitSuccess ∧ s.canBus.frames = [CanBus.canFrame (brakeMessage false)] ∧
      milestones {} 4 (startActions ++ stopActions) = [.canOpened, .serverStarted] ++
        List.replicate 6 .callback ++ [.serverStopping, .canClosing] ∧ AtRest s := by
  have hrun : (exec (step {}) (new 4) (startActions ++ stopActions)).map
      (fun s => (s.pc, s.exitCode, s.canBus.frames)) =
      some (.outside, some kExitSuccess, [CanBus.canFrame (brakeMessage false)]) := by
    decide +kernel
  obtain ⟨s, hs, hlast⟩ := Option.map_eq_some_iff.mp hrun
  simp only [Prod.mk.injEq] at hlast
  rcases hlast with ⟨hpc, hexit, hframes⟩
  exact ⟨s, hs, hexit, hframes, by decide +kernel,
    (callback_within_service hs).2.2 (Or.inl hpc)⟩

end AebNode.Application
