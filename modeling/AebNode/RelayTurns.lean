import AebNode.RelayThreads

/-! From one chunk to the next the relay with its two threads is the relay of the turns, and passes
each viewer what it has received since the viewer joined. -/
namespace AebNode.AngleMonitor
open ChunkedReading LidarViewer LittleEndian Machine Protocol Reader

namespace Monitor

section Threads
variable {δ μ : Type} {degrees : FloatBits → δ} {metres : FloatBits → μ}

theorem sessionLoop_concat {clients clients' : List Client} {buf rest last : Bytes}
    {turns : List Turn} {turn : Turn} {reports reports' : List (List (List (δ × μ × UInt8)))}
    {frames : List (List (δ × μ × UInt8))}
    (hloop : sessionLoop degrees metres clients buf turns = some (clients', reports))
    (hread : feedAll (decodeFrames degrees metres) buf (turns.map Turn.chunk) =
      some (reports', rest))
    (hchunks : ∀ t ∈ turns, t.chunk ≠ []) (hne : turn.chunk ≠ [])
    (hdecode : decodeFrames degrees metres (rest ++ turn.chunk) = some (frames, last)) :
    sessionLoop degrees metres clients buf (turns ++ [turn]) =
      some (broadcast turn.fails (clients' ++ turn.arrivals.map fun socket => ⟨socket, []⟩)
        turn.chunk, reports ++ [frames]) := by
  induction turns generalizing clients buf reports reports' with
  | nil =>
    obtain ⟨rfl, rfl⟩ := Prod.mk.inj (Option.some.inj hloop)
    obtain ⟨rfl, rfl⟩ := Prod.mk.inj (Option.some.inj hread)
    have hlength : turn.chunk.length ≠ 0 := mt List.length_eq_zero_iff.mp hne
    simp [sessionLoop, hlength, hdecode]
  | cons first turns ih =>
    obtain ⟨hfirst, hrest⟩ := List.forall_mem_cons.mp hchunks
    have hlength : first.chunk.length ≠ 0 := mt List.length_eq_zero_iff.mp hfirst
    rw [List.map_cons, feedAll, feed_eq, Option.bind_eq_bind, Option.bind_eq_some_iff] at hread
    obtain ⟨⟨frames₁, buf₁⟩, hdecode₁, hread⟩ := hread
    simp only [Option.bind_eq_bind, Option.bind_eq_some_iff] at hread
    obtain ⟨⟨reports₁, rest₁⟩, hread₁, hread⟩ := hread
    obtain ⟨rfl, rfl⟩ := Prod.mk.inj (Option.some.inj hread)
    simp only [sessionLoop, hlength, if_false, hdecode₁, Option.bind_eq_bind, Option.bind_some,
      Option.pure_def, Option.bind_eq_some_iff] at hloop
    obtain ⟨⟨clients₁, reports₂⟩, hloop₁, hloop⟩ := hloop
    obtain ⟨rfl, rfl⟩ := Prod.mk.inj (Option.some.inj hloop)
    have hnext := ih hloop₁ hread₁ hrest
    simp [sessionLoop, hlength, hdecode₁, hnext]

theorem run_concat {clients clients'' : List Client} {past : List (List Turn)}
    {turns : List Turn} {reports : List (List (List (List (δ × μ × UInt8))))} :
    run degrees metres clients (past ++ [turns]) = some (clients'', reports) ↔
      ∃ clients' before last, run degrees metres clients past = some (clients', before) ∧
        runSession degrees metres clients' turns = some (clients'', last) ∧
        reports = before ++ [last] := by
  induction past generalizing clients clients'' reports with
  | nil =>
    simp only [List.nil_append, run, Option.bind_eq_bind, Option.bind_eq_some_iff,
      Option.pure_def, Option.bind_some, Option.some.injEq, Prod.mk.injEq, Prod.exists]
    constructor
    · rintro ⟨clients', last, hlast, rfl, rfl⟩
      exact ⟨clients, [], last, ⟨rfl, rfl⟩, hlast, rfl⟩
    · rintro ⟨_, _, last, ⟨rfl, rfl⟩, hlast, rfl⟩
      exact ⟨clients'', last, hlast, rfl, rfl⟩
  | cons first past ih =>
    simp only [List.cons_append, run, Option.bind_eq_bind, Option.bind_eq_some_iff, ih,
      Option.pure_def, Option.some.injEq, Prod.mk.injEq, Prod.exists]
    constructor
    · rintro ⟨clients₁, report, hfirst, _, _, ⟨clients', before, last, hpast, hlast, rfl⟩, rfl, rfl⟩
      exact ⟨clients', _, last, ⟨clients₁, report, hfirst, clients', before, hpast, rfl, rfl⟩,
        hlast, rfl⟩
    · rintro ⟨_, _, last, ⟨clients₁, report, hfirst, clients', before, hpast, rfl, rfl⟩, hlast, rfl⟩
      exact ⟨clients₁, report, hfirst, _, _, ⟨clients', before, last, hpast, hlast, rfl⟩, rfl, rfl⟩

/-- What the completed turns come to. -/
structure Completed (degrees : FloatBits → δ) (metres : FloatBits → μ)
    (sessions : List (List Turn)) (clients : List Client)
    (frames : List (List (List (δ × μ × UInt8)))) : Prop where
  nonempty : ∀ turns ∈ sessions, ∀ t ∈ turns, t.chunk ≠ []
  runs : ∃ reports, run degrees metres [] sessions = some (clients, reports) ∧
    reports.flatten = frames

theorem Completed.turn {past : List (List Turn)} {turns : List Turn} {clients : List Client}
    {buf rest : Bytes} {frames reports : List (List (List (δ × μ × UInt8)))}
    {next : List (List (δ × μ × UInt8))}
    (h : Completed degrees metres (past ++ [turns]) clients frames) (turn : Turn)
    (hread : feedAll (decodeFrames degrees metres) [] (turns.map Turn.chunk) = some (reports, buf))
    (hne : turn.chunk ≠ [])
    (hdecode : decodeFrames degrees metres (buf ++ turn.chunk) = some (next, rest)) :
    Completed degrees metres (past ++ [turns ++ [turn]])
      (broadcast turn.fails (clients ++ turn.arrivals.map fun socket => ⟨socket, []⟩) turn.chunk)
      (frames ++ [next]) := by
  obtain ⟨_, hrun, rfl⟩ := h.runs
  obtain ⟨clients₀, before, last, hpast, hturns, rfl⟩ := run_concat.mp hrun
  have hchunks : ∀ t ∈ turns, t.chunk ≠ [] := h.nonempty turns (by simp)
  refine ⟨?_, _, run_concat.mpr ⟨clients₀, before, _, hpast,
    sessionLoop_concat hturns hread hchunks hne hdecode, rfl⟩, by simp⟩
  intro ts hts
  rcases List.mem_append.mp hts with hts | hts
  · exact h.nonempty ts (List.mem_append_left _ hts)
  · obtain rfl := List.mem_singleton.mp hts
    intro t ht
    rcases List.mem_append.mp ht with ht | ht
    · exact hchunks t ht
    · obtain rfl := List.mem_singleton.mp ht
      exact hne

theorem Completed.session {sessions : List (List Turn)} {clients : List Client}
    {frames : List (List (List (δ × μ × UInt8)))}
    (h : Completed degrees metres sessions clients frames) :
    Completed degrees metres (sessions ++ [[]]) clients frames := by
  obtain ⟨reports, hrun, rfl⟩ := h.runs
  refine ⟨?_, _, run_concat.mpr ⟨clients, reports, [], hrun, rfl, rfl⟩, by simp⟩
  intro turns hturns
  rcases List.mem_append.mp hturns with hturns | hturns
  · exact h.nonempty turns hturns
  · obtain rfl := List.mem_singleton.mp hturns
    simp

def joined (fresh : List ℕ) : List Client := fresh.map fun socket => ⟨socket, []⟩

/-- The chunk has been passed on to the first clients, except to the dead. -/
structure Passed (delivered : ℕ → Bytes) (chunk : Bytes) (done rest : List Client)
    (dead : List ℕ) : Prop where
  sent : ∀ c ∈ done, c.socket ∉ dead → delivered c.socket = c.sent ++ chunk
  waiting : ∀ c ∈ rest, delivered c.socket = c.sent
  dead : dead.Sublist (done.map Client.socket)

/-- The clients of the completed turns, told from where the main thread is. -/
def Settles (p : Progress) (s : Monitor) (clients : List Client) : Prop :=
  match s.pc with
  | .send chunk left dead => ∃ arrivals done rest,
    p.current = some ⟨arrivals, chunk, fun k => decide (k ∈ dead)⟩ ∧
      clients ++ joined arrivals = done ++ rest ∧ rest.map Client.socket = left ∧
      s.clients = (done ++ rest).map Client.socket ++ p.fresh ∧
      Passed s.delivered chunk done rest dead
  | .remove chunk dead => ∃ arrivals,
    p.current = some ⟨arrivals, chunk, fun k => decide (k ∈ dead)⟩ ∧
      s.clients = (clients ++ joined arrivals).map Client.socket ++ p.fresh ∧
      Passed s.delivered chunk (clients ++ joined arrivals) [] dead
  | .decode chunk => ∃ arrivals dead,
    p.current = some ⟨arrivals, chunk, fun k => decide (k ∈ dead)⟩ ∧
      s.clients = ((clients ++ joined arrivals).filter fun c => c.socket ∉ dead).map
        Client.socket ++ p.fresh ∧
      Passed s.delivered chunk (clients ++ joined arrivals) [] dead
  | _ => p.current = none ∧ s.clients = clients.map Client.socket ++ p.fresh ∧
    ∀ c ∈ clients, s.delivered c.socket = c.sent

@[simp] def inSession : MonitorPc → Bool
  | .connect | .sleep => false
  | _ => true

/-- The two threads have come to what the completed turns come to. -/
structure Follows (degrees : FloatBits → δ) (metres : FloatBits → μ) (w : List (Note δ μ))
    (s : Monitor) (clients : List Client) : Prop where
  completed : Completed degrees metres (progress w).sessions clients (shown w)
  arrived : received w =
    s.pc.pending.foldl Viewer.arrive ((progress w).sessions.map (List.map Turn.chunk))
  nonempty : ∀ chunk ∈ s.pc.pending, chunk ≠ []
  reading : inSession s.pc = true → ∃ past turns reports, (progress w).sessions = past ++ [turns] ∧
    feedAll (decodeFrames degrees metres) [] (turns.map Turn.chunk) = some (reports, s.buf)
  settles : Settles (progress w) s clients
  silent : ∀ k ∈ (progress w).fresh, s.delivered k = []

theorem Passed.next {delivered : ℕ → Bytes} {chunk bytes : Bytes} {done rest : List Client}
    {c : Client} {dead dead' : List ℕ} (h : Passed delivered chunk done (c :: rest) dead)
    (hnodup : ((done ++ c :: rest).map Client.socket).Nodup)
    (houtcome : bytes = chunk ∧ dead' = dead ∨ dead' = dead ++ [c.socket]) :
    Passed (Function.update delivered c.socket (delivered c.socket ++ bytes)) chunk (done ++ [c])
      rest dead' := by
  rw [List.map_append, List.map_cons, List.nodup_append, List.nodup_cons] at hnodup
  obtain ⟨-, ⟨hrest, -⟩, hdone⟩ := hnodup
  have hbefore : ∀ c' ∈ done, c'.socket ≠ c.socket := fun c' hc' =>
    hdone _ (List.mem_map_of_mem hc') _ List.mem_cons_self
  have hbehind : ∀ c' ∈ rest, c'.socket ≠ c.socket := fun c' hc' he =>
    hrest (he ▸ List.mem_map_of_mem hc')
  have hsubset : dead ⊆ dead' := by
    rcases houtcome with ⟨-, rfl⟩ | rfl
    · exact List.Subset.refl _
    · exact List.subset_append_left _ _
  constructor
  case sent =>
    intro c' hc' halive
    rcases List.mem_append.mp hc' with hold | hnew
    · rw [Function.update_of_ne (hbefore c' hold)]
      exact h.sent c' hold fun hmem => halive (hsubset hmem)
    · obtain rfl := List.mem_singleton.mp hnew
      rcases houtcome with ⟨rfl, -⟩ | rfl
      · rw [Function.update_self, h.waiting c' List.mem_cons_self]
      · exact absurd (by simp) halive
  case waiting =>
    intro c' hc'
    rw [Function.update_of_ne (hbehind c' hc')]
    exact h.waiting c' (List.mem_cons_of_mem _ hc')
  case dead =>
    rw [List.map_append, List.map_singleton]
    rcases houtcome with ⟨-, rfl⟩ | rfl
    · exact h.dead.trans (List.sublist_append_left _ _)
    · exact h.dead.append (List.Sublist.refl _)

section Steps
variable {w : List (Note δ μ)} {s t : Monitor} {clients : List Client}

theorem Follows.left (hs : Follows degrees metres w s clients) (hnodup : s.clients.Nodup)
    {chunk : Bytes} {left dead : List ℕ} (hpc : s.pc = .send chunk left dead) :
    left ⊆ s.clients ∧ dead ⊆ s.clients ∧ left.Nodup ∧ ∀ k ∈ left, k ∉ dead := by
  have hsettles := hs.settles
  simp only [Settles, hpc] at hsettles
  obtain ⟨arrivals, done, rest, -, -, rfl, hclients, hpassed⟩ := hsettles
  rw [hclients, List.map_append, List.append_assoc] at hnodup ⊢
  obtain ⟨-, hbehind, hapart⟩ := List.nodup_append.mp hnodup
  refine ⟨fun k hk => by simp [List.mem_map.mp hk], fun k hk => ?_,
    (List.nodup_append.mp hbehind).1, fun k hk hdead => ?_⟩
  · exact List.mem_append_left _ (hpassed.dead.subset hk)
  · exact hapart k (hpassed.dead.subset hdead) k (List.mem_append_left _ hk) rfl

theorem Follows.owed (hs : Follows degrees metres w s clients) (hnodup : s.clients.Nodup) {k : ℕ}
    (hk : k ∉ s.clients) : s.pc.owed k = [] := by
  cases hpc : s.pc with
  | send chunk left dead => exact if_neg fun hmem => hk ((hs.left hnodup hpc).1 hmem)
  | _ => rfl

/-- A viewer joins, at whatever point of a broadcast. -/
theorem Follows.append (hs : Follows degrees metres w s clients) {k : ℕ}
    (hk : s.delivered k = []) :
    Follows degrees metres (w ++ [.joined k])
      { s with clients := s.clients ++ [k], acceptor := .accept } clients := by
  refine ⟨?_, ?_, hs.nonempty, ?_, ?_, ?_⟩
  · simpa [shown, Progress.next] using hs.completed
  · simpa [Progress.next] using hs.arrived
  · simpa [Progress.next] using hs.reading
  · have hsettles := hs.settles
    rw [progress_concat]
    cases hpc : s.pc with
    | send chunk left dead =>
      simp only [Settles, hpc] at hsettles ⊢
      obtain ⟨arrivals, done, rest, hcurrent, hall, hleft, hclients, hpassed⟩ := hsettles
      exact ⟨arrivals, done, rest, hcurrent, hall, hleft,
        by rw [hclients, List.append_assoc]; rfl, hpassed⟩
    | remove chunk dead =>
      simp only [Settles, hpc] at hsettles ⊢
      obtain ⟨arrivals, hcurrent, hclients, hpassed⟩ := hsettles
      exact ⟨arrivals, hcurrent, by rw [hclients, List.append_assoc]; rfl, hpassed⟩
    | decode chunk =>
      simp only [Settles, hpc] at hsettles ⊢
      obtain ⟨arrivals, dead, hcurrent, hclients, hpassed⟩ := hsettles
      exact ⟨arrivals, dead, hcurrent, by rw [hclients, List.append_assoc]; rfl, hpassed⟩
    | _ =>
      simp only [Settles, hpc] at hsettles ⊢
      obtain ⟨hcurrent, hclients, hsent⟩ := hsettles
      exact ⟨hcurrent, by rw [hclients, List.append_assoc]; rfl, hsent⟩
  · rw [progress_concat]
    intro j hj
    rcases List.mem_append.mp hj with hj | hj
    · exact hs.silent j hj
    · rw [List.mem_singleton.mp hj, hk]

theorem Follows.snapshot (hs : Follows degrees metres w s clients) {chunk : Bytes}
    (hpc : s.pc = .snapshot chunk) :
    Follows degrees metres (w ++ [.broadcast chunk])
      { s with pc := .send chunk s.clients [] } clients := by
  have hsettles := hs.settles
  simp only [Settles, hpc] at hsettles
  obtain ⟨-, hclients, hsent⟩ := hsettles
  refine ⟨?_, ?_, ?_, fun _ => ?_, ?_, ?_⟩
  · simpa [shown, Progress.next] using hs.completed
  · simpa [hpc, Progress.next] using hs.arrived
  · simpa [hpc] using hs.nonempty
  · simpa [Progress.next] using hs.reading (by simp [hpc])
  · rw [progress_concat]
    refine ⟨(progress w).fresh, [], clients ++ joined (progress w).fresh, ?_, rfl, ?_, ?_,
      ⟨by simp, fun c hc => ?_, List.Sublist.slnil⟩⟩
    · simp [Progress.next]
    · simp [hclients, joined, Function.comp_def]
    · simp [hclients, joined, Function.comp_def, Progress.next]
    · rcases List.mem_append.mp hc with hc | hc
      · exact hsent c hc
      · obtain ⟨k, hk, rfl⟩ := List.mem_map.mp hc
        exact hs.silent k hk
  · simp [Progress.next]

theorem Follows.send (hs : Follows degrees metres w s clients) (hnodup : s.clients.Nodup)
    {chunk bytes : Bytes} {k : ℕ} {left dead dead' : List ℕ} {n : List (Note δ μ)}
    (hpc : s.pc = .send chunk (k :: left) dead)
    (houtcome : bytes = chunk ∧ dead' = dead ∧ n = [] ∨
      dead' = dead ++ [k] ∧ n = [.failed k]) :
    Follows degrees metres (w ++ n) { s with
      delivered := Function.update s.delivered k (s.delivered k ++ bytes)
      pc := .send chunk left dead' } clients := by
  have hsettles := hs.settles
  simp only [Settles, hpc] at hsettles
  obtain ⟨arrivals, done, rest, hcurrent, hall, hleft, hclients, hpassed⟩ := hsettles
  obtain ⟨c, rest, rfl, rfl, rfl⟩ := List.map_eq_cons_iff.mp hleft
  have hnoted : shown (w ++ n) = shown w ∧ received (w ++ n) = received w ∧
      (progress (w ++ n)).sessions = (progress w).sessions ∧
      (progress (w ++ n)).fresh = (progress w).fresh ∧
      (progress (w ++ n)).current = some ⟨arrivals, chunk, fun k => decide (k ∈ dead')⟩ := by
    rcases houtcome with ⟨-, rfl, rfl⟩ | ⟨rfl, rfl⟩
    · simp [hcurrent]
    · simp [shown, Progress.next, hcurrent]
  obtain ⟨hshown, hreceived, hsessions, hfresh, hturn⟩ := hnoted
  rw [hclients, List.nodup_append] at hnodup
  obtain ⟨hknown, -, hapart⟩ := hnodup
  refine ⟨?_, ?_, ?_, fun _ => ?_, ?_, ?_⟩
  · rw [hshown, hsessions]
    exact hs.completed
  · rw [hreceived, hsessions, hs.arrived, hpc]
    rfl
  · simpa [hpc] using hs.nonempty
  · rw [hsessions]
    exact hs.reading (by simp [hpc])
  · refine ⟨arrivals, done ++ [c], rest, hturn, by rw [hall]; simp, rfl, ?_,
      hpassed.next hknown (houtcome.imp (fun h => ⟨h.1, h.2.1⟩) And.left)⟩
    rw [hfresh, hclients]
    simp
  · rw [hfresh]
    intro j hj
    have hne : j ≠ c.socket := fun he => hapart c.socket (by simp) j hj he.symm
    exact (Function.update_of_ne hne _ _).trans (hs.silent j hj)

theorem Follows.finish (hs : Follows degrees metres w s clients) {chunk : Bytes}
    {dead : List ℕ} (hpc : s.pc = .send chunk [] dead) :
    Follows degrees metres w
      { s with pc := if dead.isEmpty then .decode chunk else .remove chunk dead } clients := by
  have hsettles := hs.settles
  simp only [Settles, hpc] at hsettles
  obtain ⟨arrivals, done, rest, hcurrent, hall, hleft, hclients, hpassed⟩ := hsettles
  obtain rfl := List.map_eq_nil_iff.mp hleft
  rw [List.append_nil] at hall hclients
  subst hall
  have hreceived := hs.arrived
  have hnonempty := hs.nonempty
  have hreading := hs.reading (by simp [hpc])
  rw [hpc] at hreceived hnonempty
  cases dead with
  | nil =>
    exact ⟨hs.completed, hreceived, hnonempty, fun _ => hreading,
      ⟨arrivals, [], hcurrent, by simpa using hclients, hpassed⟩, hs.silent⟩
  | cons d dead =>
    exact ⟨hs.completed, hreceived, hnonempty, fun _ => hreading,
      ⟨arrivals, hcurrent, hclients, hpassed⟩, hs.silent⟩

/-- The dead are removed, wherever the accept loop has appended meanwhile. -/
theorem Follows.remove (hs : Follows degrees metres w s clients) (hnodup : s.clients.Nodup)
    {chunk : Bytes} {dead : List ℕ} (hpc : s.pc = .remove chunk dead) :
    dead.Sublist s.clients ∧
      removeDead s.clients s.closed dead =
        (s.clients.filter (· ∉ dead), s.closed ++ dead, true) ∧
      Follows degrees metres w { s with
        clients := s.clients.filter (· ∉ dead)
        closed := s.closed ++ dead
        pc := .decode chunk } clients := by
  have hsettles := hs.settles
  simp only [Settles, hpc] at hsettles
  obtain ⟨arrivals, hcurrent, hclients, hpassed⟩ := hsettles
  have hdead : dead.Sublist s.clients :=
    hclients ▸ hpassed.dead.trans (List.sublist_append_left _ _)
  have hapart : ∀ k ∈ (progress w).fresh, k ∉ dead := by
    intro k hk hmem
    rw [hclients, List.nodup_append] at hnodup
    exact hnodup.2.2 k (hpassed.dead.subset hmem) k hk rfl
  have hfresh : (progress w).fresh.filter (· ∉ dead) = (progress w).fresh :=
    List.filter_eq_self.mpr fun k hk => by simpa using hapart k hk
  refine ⟨hdead, removeDead_eq hnodup hdead, hs.completed, ?_, ?_,
    fun _ => hs.reading (by simp [hpc]), ⟨arrivals, dead, hcurrent, ?_, hpassed⟩, hs.silent⟩
  · simpa [hpc] using hs.arrived
  · simpa [hpc] using hs.nonempty
  · simp only [hclients, List.filter_append, hfresh, List.filter_map]
    rfl

/-- Behind the decoding the turn is complete. -/
theorem Follows.decode (hs : Follows degrees metres w s clients) {chunk rest : Bytes}
    {frames : List (List (δ × μ × UInt8))} (hpc : s.pc = .decode chunk)
    (hdecode : decodeFrames degrees metres (s.buf ++ chunk) = some (frames, rest)) :
    ∃ clients', Follows degrees metres (w ++ [.shown frames])
      { s with buf := rest, pc := .recv } clients' := by
  obtain ⟨past, turns, reports, hsessions, hread⟩ := hs.reading (by simp [hpc])
  have hsettles := hs.settles
  simp only [Settles, hpc] at hsettles
  obtain ⟨arrivals, dead, hcurrent, hclients, hpassed⟩ := hsettles
  have hne : chunk ≠ [] := hs.nonempty chunk (by simp [hpc])
  let turn : Turn := ⟨arrivals, chunk, fun k => decide (k ∈ dead)⟩
  have hturn := (hsessions ▸ hs.completed).turn turn hread hne hdecode
  have hnext : progress (w ++ [.shown frames]) =
      ⟨past ++ [turns ++ [turn]], none, (progress w).fresh⟩ := by
    simp [Progress.next, hcurrent, hsessions, Viewer.arrive_concat, turn]
  have hlength : chunk.length ≠ 0 := mt List.length_eq_zero_iff.mp hne
  have hbroadcast : broadcast turn.fails (clients ++ joined arrivals) chunk =
      ((clients ++ joined arrivals).filter fun c => c.socket ∉ dead).map fun c =>
        { c with sent := c.sent ++ chunk } := by
    rw [broadcast, if_neg hlength]
    refine congrArg (List.map _) (List.filter_congr fun c _ => ?_)
    simp [turn]
  refine ⟨broadcast turn.fails (clients ++ joined arrivals) chunk, ?_, ?_, by simp, ?_, ?_, ?_⟩
  · rw [hnext]
    simpa [shown, joined, turn] using hturn
  · rw [received_shown, hs.arrived, hpc, hnext, hsessions]
    simp [turn, Viewer.arrive_concat]
  · rw [hnext]
    exact fun _ => ⟨past, turns ++ [turn], _, rfl, by
      rw [List.map_append, List.map_singleton, feedAll_concat hread, hdecode]
      rfl⟩
  · rw [hnext]
    refine ⟨rfl, ?_, fun c hc => ?_⟩
    · rw [hclients, hbroadcast]
      simp [Function.comp_def]
    · rw [hbroadcast] at hc
      obtain ⟨c', hc', rfl⟩ := List.mem_map.mp hc
      obtain ⟨hmem, halive⟩ := List.mem_filter.mp hc'
      exact hpassed.sent c' hmem (by simpa using halive)
  · rw [hnext]
    exact hs.silent

theorem Follows.idle (hs : Follows degrees metres w s clients) {n : List (Note δ μ)}
    {pc : MonitorPc} {buf : Bytes}
    (hbefore : s.pc = .connect ∨ s.pc = .recv ∨ s.pc = .sleep)
    (hafter : pc = .connect ∨ pc = .recv ∨ pc = .sleep ∨ ∃ chunk, pc = .snapshot chunk)
    (hcurrent : (progress (w ++ n)).current = (progress w).current)
    (hfresh : (progress (w ++ n)).fresh = (progress w).fresh)
    (hcompleted : Completed degrees metres (progress (w ++ n)).sessions clients (shown (w ++ n)))
    (hreceived : received (w ++ n) = pc.pending.foldl Viewer.arrive
      ((progress (w ++ n)).sessions.map (List.map Turn.chunk)))
    (hnonempty : ∀ chunk ∈ pc.pending, chunk ≠ [])
    (hreading : inSession pc = true → ∃ past turns reports,
      (progress (w ++ n)).sessions = past ++ [turns] ∧
        feedAll (decodeFrames degrees metres) [] (turns.map Turn.chunk) = some (reports, buf)) :
    Follows degrees metres (w ++ n) { s with pc := pc, buf := buf } clients := by
  refine ⟨hcompleted, hreceived, hnonempty, hreading, ?_, hfresh ▸ hs.silent⟩
  have hsettles := hs.settles
  rcases hbefore with hpc | hpc | hpc <;> simp only [Settles, hpc] at hsettles <;>
    rw [← hcurrent, ← hfresh] at hsettles <;>
    rcases hafter with rfl | rfl | rfl | ⟨chunk, rfl⟩ <;> exact hsettles

theorem idle_follows (hs : Follows degrees metres w s clients) {a : Action}
    (hpc : s.pc = .connect ∨ s.pc = .recv ∨ s.pc = .sleep)
    (ha : (∃ succeeds, a = .connect succeeds) ∨ (∃ chunk, a = .recv chunk) ∨ a = .sleep)
    (h : s.step degrees metres a = some t) :
    Follows degrees metres (w ++ note degrees metres s a) t clients := by
  have hquiet : s.pc.pending = [] := by rcases hpc with hpc | hpc | hpc <;> simp [hpc]
  have harrived : received w = (progress w).sessions.map (List.map Turn.chunk) := by
    rw [hs.arrived, hquiet]
    rfl
  have hleave : ∀ pc : MonitorPc, pc = .connect ∨ pc = .sleep →
      Follows degrees metres (w ++ []) { s with pc := pc } clients := by
    intro pc hafter
    refine hs.idle hpc (hafter.elim Or.inl fun he => Or.inr (Or.inr (Or.inl he))) ?_ ?_ ?_ ?_ ?_ ?_
    · rw [List.append_nil]
    · rw [List.append_nil]
    · rw [List.append_nil]
      exact hs.completed
    · rw [List.append_nil, harrived]
      rcases hafter with rfl | rfl <;> rfl
    · rcases hafter with rfl | rfl <;> simp
    · rcases hafter with rfl | rfl <;> simp
  rcases ha with ⟨succeeds, rfl⟩ | ⟨chunk, rfl⟩ | rfl
  · cases succeeds <;> cases hconnect : s.pc <;>
      simp only [step, hconnect, reduceCtorEq, Option.some.injEq] at h <;> subst h
    · exact hleave .sleep (Or.inr rfl)
    · refine hs.idle hpc (Or.inr (Or.inl rfl)) ?_ ?_ ?_ ?_ (by simp) ?_
      · simp [note, Progress.next]
      · simp [note, Progress.next]
      · have hshown : shown (w ++ [.connected]) = shown w := by simp [shown]
        rw [note, hshown, progress_concat]
        exact hs.completed.session
      · simp [note, harrived, Progress.next]
      · exact fun _ => ⟨(progress w).sessions, [], [], by simp [note, Progress.next], rfl⟩
  · cases chunk with
    | none =>
      cases hrecv : s.pc <;> simp only [step, hrecv, reduceCtorEq, Option.some.injEq] at h
      subst h
      exact hleave .sleep (Or.inr rfl)
    | some chunk =>
      cases hrecv : s.pc <;> simp only [step, hrecv, reduceCtorEq, Option.some.injEq] at h
      subst h
      by_cases hempty : chunk.length = 0
      · simp only [note, hempty, if_true]
        exact hleave .sleep (Or.inr rfl)
      · simp only [note, hempty, if_false]
        refine hs.idle hpc (Or.inr (Or.inr (Or.inr ⟨chunk, rfl⟩))) ?_ ?_ ?_ ?_ ?_ ?_
        · simp [Progress.next]
        · simp [Progress.next]
        · have hshown : shown (w ++ [.received chunk]) = shown w := by simp [shown]
          rw [hshown, progress_concat]
          exact hs.completed
        · simp [harrived, Progress.next]
        · rintro _ hmem rfl
          simp only [MonitorPc.pending, List.mem_singleton] at hmem
          exact hempty (hmem ▸ rfl)
        · rw [progress_concat]
          exact fun _ => hs.reading (by simp [hrecv])
  · cases hsleep : s.pc <;> simp only [step, hsleep, reduceCtorEq, Option.some.injEq] at h
    subst h
    exact hleave .connect (Or.inl rfl)

structure Relayed (degrees : FloatBits → δ) (metres : FloatBits → μ) (w : List (Note δ μ))
    (s : Monitor) : Prop where
  attended : Attended s
  follows : ∃ clients, Follows degrees metres w s clients
  streams : Streams w s

theorem new_relayed : Relayed degrees metres [] ({} : Monitor) := by
  have hnone : ∀ k, since ([] : List (Note δ μ)) k = [] := fun _ => rfl
  refine ⟨⟨?_, ?_, ?_, ?_, ?_, ?_⟩, ⟨[], ⟨?_, [], rfl, rfl⟩, rfl, ?_, ?_, ⟨rfl, rfl, ?_⟩, ?_⟩,
    ⟨?_, fun k => List.nil_prefix, ?_, ?_, rfl, ?_⟩⟩ <;> simp [progress, joins]

theorem arrive_flatten {past : List (List Bytes)} {chunks : List Bytes} {chunk : Bytes} :
    (Viewer.arrive (past ++ [chunks]) chunk).flatten.flatten =
      (past ++ [chunks]).flatten.flatten ++ chunk := by
  simp [Viewer.arrive_concat]

theorem acceptor_relayed (hs : Relayed degrees metres w s) {a : Action}
    (ha : (∃ succeeds, a = .accept succeeds) ∨ a = .append)
    (h : s.step degrees metres a = some t) :
    Relayed degrees metres (w ++ note degrees metres s a) t := by
  obtain ⟨clients, hfollows⟩ := hs.follows
  have hstreams := hs.streams
  rcases ha with ⟨succeeds, rfl⟩ | rfl
  · cases succeeds <;> cases hacc : s.acceptor <;>
      simp only [step, hacc, reduceCtorEq, Option.some.injEq] at h <;> subst h <;>
      simp only [note, List.append_nil]
    · refine ⟨⟨hs.attended.known, hs.attended.gone, hs.attended.nodup, hs.attended.closedOnce,
        by simp, hs.attended.silent⟩, ⟨clients, ?_⟩, ?_⟩
      · exact ⟨hfollows.completed, hfollows.arrived, hfollows.nonempty, hfollows.reading,
          hfollows.settles, hfollows.silent⟩
      · exact ⟨hstreams.live, hstreams.within, hstreams.joined, hstreams.once, hstreams.broadcast,
          hstreams.failed⟩
    · refine ⟨hs.attended.accept, ⟨clients, ?_⟩, ?_⟩
      · exact ⟨hfollows.completed, hfollows.arrived, hfollows.nonempty, hfollows.reading,
          hfollows.settles, hfollows.silent⟩
      · exact ⟨hstreams.live, hstreams.within, hstreams.joined, hstreams.once, hstreams.broadcast,
          hstreams.failed⟩
  · cases hacc : s.acceptor <;> simp only [step, hacc, reduceCtorEq, Option.some.injEq] at h
    subst h
    obtain ⟨-, hclients, hclosed⟩ := hs.attended.waiting _ hacc
    have hsilent := hs.attended.silent _ hclients hclosed
    simp only [note, hacc]
    exact ⟨hs.attended.append hacc, ⟨clients, hfollows.append hsilent⟩,
      hstreams.append hclients hclosed hsilent (hfollows.owed hs.attended.nodup hclients)⟩

theorem send_relayed (hs : Relayed degrees metres w s) {failure : Option ℕ}
    (h : s.step degrees metres (.send failure) = some t) :
    Relayed degrees metres (w ++ note degrees metres s (.send failure)) t := by
  obtain ⟨clients, hfollows⟩ := hs.follows
  rcases hpc : s.pc with _ | _ | _ | ⟨chunk, left, dead⟩ | _ | _ | _
  case send =>
    cases left with
    | nil => cases failure <;> simp [step, hpc] at h
    | cons k left =>
      obtain ⟨hmem, -, hnodup, halive⟩ := hfollows.left hs.attended.nodup hpc
      have hk := hmem List.mem_cons_self
      have hkleft := (List.nodup_cons.mp hnodup).1
      have hkdead := halive k List.mem_cons_self
      cases failure with
      | none =>
        obtain rfl : _ = t := by simpa only [step, hpc, Option.some.injEq] using h
        simp only [note]
        exact ⟨hs.attended.send hk _ _,
          ⟨clients, hfollows.send hs.attended.nodup hpc (Or.inl ⟨rfl, rfl, rfl⟩)⟩,
          hs.streams.send hpc hk hkdead hkleft List.prefix_rfl (Or.inl ⟨rfl, rfl, rfl⟩)⟩
      | some n =>
        obtain rfl : _ = t := by simpa only [step, hpc, Option.some.injEq] using h
        simp only [note, hpc]
        exact ⟨hs.attended.send hk _ _,
          ⟨clients, hfollows.send hs.attended.nodup hpc (Or.inr ⟨rfl, rfl⟩)⟩,
          hs.streams.send hpc hk hkdead hkleft (List.take_prefix n chunk) (Or.inr ⟨rfl, rfl⟩)⟩
  all_goals cases failure <;> simp [step, hpc] at h

theorem remove_relayed (hs : Relayed degrees metres w s)
    (h : s.step degrees metres .remove = some t) : Relayed degrees metres w t := by
  obtain ⟨clients, hfollows⟩ := hs.follows
  cases hpc : s.pc <;> simp only [step, hpc, reduceCtorEq, Option.some.injEq] at h
  obtain ⟨hdead, hremove, hnext⟩ := hfollows.remove hs.attended.nodup hpc
  rw [hremove] at h
  subst h
  exact ⟨hs.attended.remove hdead _, ⟨clients, hnext⟩, hs.streams.remove hpc hdead.subset⟩

/-- Outside a broadcast the receive loop changes its own state only. -/
theorem idle_moves {a : Action}
    (ha : (∃ succeeds, a = .connect succeeds) ∨ (∃ chunk, a = .recv chunk) ∨ a = .sleep)
    (h : s.step degrees metres a = some t) :
    (s.pc = .connect ∨ s.pc = .recv ∨ s.pc = .sleep) ∧
      ∃ pc buf, t = { s with pc := pc, buf := buf } ∧
        (pc = .connect ∨ pc = .recv ∨ pc = .sleep ∨ ∃ chunk, pc = .snapshot chunk) := by
  rcases ha with ⟨succeeds, rfl⟩ | ⟨chunk, rfl⟩ | rfl
  · cases succeeds <;> cases hpc : s.pc <;>
      simp only [step, hpc, reduceCtorEq, Option.some.injEq] at h
    all_goals exact ⟨Or.inl rfl, _, _, h.symm, by simp⟩
  · cases chunk <;> cases hpc : s.pc <;>
      simp only [step, hpc, reduceCtorEq, Option.some.injEq] at h
    · exact ⟨Or.inr (Or.inl rfl), _, _, h.symm, by simp⟩
    · refine ⟨Or.inr (Or.inl rfl), _, _, h.symm, ?_⟩
      split_ifs <;> simp
  · cases hpc : s.pc <;> simp only [step, hpc, reduceCtorEq, Option.some.injEq] at h
    exact ⟨Or.inr (Or.inr rfl), _, _, h.symm, by simp⟩

theorem idle_upstream (hs : Relayed degrees metres w s) {a : Action}
    (hpc : s.pc = .connect ∨ s.pc = .recv ∨ s.pc = .sleep)
    (ha : (∃ succeeds, a = .connect succeeds) ∨ (∃ chunk, a = .recv chunk) ∨ a = .sleep)
    (h : s.step degrees metres a = some t) :
    (broadcasts w).flatten ++ t.pc.unsent = upstream (w ++ note degrees metres s a) := by
  have hall : (broadcasts w).flatten = upstream w := by
    have hbroadcast := hs.streams.broadcast
    rcases hpc with hpc | hpc | hpc <;> simpa [hpc] using hbroadcast
  rcases ha with ⟨succeeds, rfl⟩ | ⟨chunk, rfl⟩ | rfl
  · cases succeeds <;> cases hconnect : s.pc <;>
      simp only [step, hconnect, reduceCtorEq, Option.some.injEq] at h <;> subst h <;>
      simp [note, hall, upstream]
  · cases chunk with
    | none =>
      cases hrecv : s.pc <;> simp only [step, hrecv, reduceCtorEq, Option.some.injEq] at h
      subst h
      simp [note, hall]
    | some chunk =>
      cases hrecv : s.pc <;> simp only [step, hrecv, reduceCtorEq, Option.some.injEq] at h
      subst h
      by_cases hempty : chunk.length = 0
      · simp [note, hempty, hall]
      · obtain ⟨clients, hfollows⟩ := hs.follows
        obtain ⟨past, turns, _, hsessions, -⟩ := hfollows.reading (by simp [hrecv])
        have hreceived : received w = (past ++ [turns]).map (List.map Turn.chunk) := by
          rw [hfollows.arrived, hrecv, hsessions]
          rfl
        simp only [note, hempty, if_false, hall, MonitorPc.unsent]
        rw [upstream, upstream, received_chunk, hreceived, List.map_append, List.map_singleton,
          arrive_flatten]
  · cases hsleep : s.pc <;> simp only [step, hsleep, reduceCtorEq, Option.some.injEq] at h
    subst h
    simp [note, hall]

theorem idle_relayed (hs : Relayed degrees metres w s) {a : Action}
    (ha : (∃ succeeds, a = .connect succeeds) ∨ (∃ chunk, a = .recv chunk) ∨ a = .sleep)
    (h : s.step degrees metres a = some t) :
    Relayed degrees metres (w ++ note degrees metres s a) t := by
  obtain ⟨clients, hfollows⟩ := hs.follows
  obtain ⟨hpc, pc, buf, rfl, hafter⟩ := idle_moves ha h
  have hnote : joins (note degrees metres s a) = [] ∧
      broadcasts (note degrees metres s a) = [] := by
    rcases ha with ⟨succeeds, rfl⟩ | ⟨chunk, rfl⟩ | rfl
    · cases succeeds <;> simp [note, joins, broadcasts]
    · cases chunk with
      | none => simp [note, joins, broadcasts]
      | some chunk => by_cases hempty : chunk.length = 0 <;> simp [note, hempty, joins, broadcasts]
    · simp [note, joins, broadcasts]
  have hquiet : s.pc.dead = [] ∧ ∀ k, s.pc.owed k = [] := by
    rcases hpc with hpc | hpc | hpc <;> simp [hpc]
  have hstill : pc.dead = [] ∧ ∀ k, pc.owed k = [] := by
    rcases hafter with rfl | rfl | rfl | ⟨chunk, rfl⟩ <;> simp
  refine ⟨hs.attended.idle _ _, ⟨clients, idle_follows hfollows hpc ha h⟩,
    hs.streams.moves hnote.1 hnote.2 (hstill.1.trans hquiet.1.symm)
      (fun k => (hstill.2 k).trans (hquiet.2 k).symm) (idle_upstream hs hpc ha h)⟩

theorem step_relayed (hs : Relayed degrees metres w s) {a : Action}
    (h : s.step degrees metres a = some t) :
    Relayed degrees metres (w ++ note degrees metres s a) t := by
  obtain ⟨clients, hfollows⟩ := hs.follows
  cases a with
  | accept succeeds => exact acceptor_relayed hs (Or.inl ⟨succeeds, rfl⟩) h
  | append => exact acceptor_relayed hs (Or.inr rfl) h
  | connect succeeds => exact idle_relayed hs (Or.inl ⟨succeeds, rfl⟩) h
  | recv chunk => exact idle_relayed hs (Or.inr (Or.inl ⟨chunk, rfl⟩)) h
  | sleep => exact idle_relayed hs (Or.inr (Or.inr rfl)) h
  | snapshot =>
    cases hpc : s.pc <;> simp only [step, hpc, reduceCtorEq, Option.some.injEq] at h
    subst h
    simp only [note, hpc]
    exact ⟨hs.attended.idle _ _, ⟨clients, hfollows.snapshot hpc⟩, hs.streams.snapshot hpc⟩
  | send failure => exact send_relayed hs h
  | finish =>
    rcases hpc : s.pc with _ | _ | _ | ⟨chunk, left, dead⟩ | _ | _ | _
    case send =>
      cases left <;> simp only [step, hpc, reduceCtorEq, Option.some.injEq] at h
      subst h
      have hstreams : Streams (w ++ []) { s with
          pc := if dead.isEmpty then .decode chunk else .remove chunk dead } := by
        have hbroadcast := hs.streams.broadcast
        rw [hpc] at hbroadcast
        cases dead <;> exact hs.streams.moves rfl rfl (by simp [hpc]) (by simp [hpc])
          (by simpa using hbroadcast)
      rw [List.append_nil] at hstreams
      simp only [note, List.append_nil]
      exact ⟨hs.attended.idle _ _, ⟨clients, hfollows.finish hpc⟩, hstreams⟩
    all_goals simp [step, hpc] at h
  | remove =>
    simp only [note, List.append_nil]
    exact remove_relayed hs h
  | decode =>
    cases hpc : s.pc <;> simp only [step, hpc, reduceCtorEq, Option.map_eq_some_iff] at h
    obtain ⟨⟨frames, rest⟩, hdecode, rfl⟩ := h
    have hbroadcast := hs.streams.broadcast
    rw [hpc] at hbroadcast
    simp only [note, hpc, hdecode, Option.toList_some, List.map_cons, List.map_nil]
    exact ⟨hs.attended.idle _ _, hfollows.decode hpc hdecode,
      hs.streams.moves rfl rfl (by simp [hpc]) (by simp [hpc])
        (by simpa [upstream] using hbroadcast)⟩

theorem exec_relayed {as : List Action} (h : exec (step degrees metres) {} as = some s) :
    Relayed degrees metres (notes degrees metres as) s := by
  refine exec_induction (P := fun as s => Relayed degrees metres (notes degrees metres as) s)
    new_relayed ?_ h
  intro as a s t has hs ht
  rw [notes, trace_concat has ht]
  exact step_relayed hs ht

end Steps

section Runs
variable {s : Monitor} {as : List Action}

/-- The relay with its two threads is the relay of the turns that are noted of the run: each chunk
of each session, with the viewers that joined between the copies of the list for the chunk before
and for this one, and the sends that failed. They show the same frames, and between two broadcasts
leave the same clients behind, who were passed the same bytes, with those that joined since the
last copy, who were passed nothing. -/
theorem threads_refine_turns (h : exec (step degrees metres) {} as = some s) :
    let turns := progress (notes degrees metres as)
    ∃ clients reports, run degrees metres [] turns.sessions = some (clients, reports) ∧
      reports.flatten = shown (notes degrees metres as) ∧
      received (notes degrees metres as) =
        s.pc.pending.foldl Viewer.arrive (turns.sessions.map (List.map Turn.chunk)) ∧
      (s.pc.pending = [] → turns.current = none ∧
        s.clients = clients.map Client.socket ++ turns.fresh ∧
        (∀ c ∈ clients, s.delivered c.socket = c.sent) ∧
        ∀ k ∈ turns.fresh, s.delivered k = []) := by
  obtain ⟨clients, hfollows⟩ := (exec_relayed h).follows
  obtain ⟨reports, hrun, hshown⟩ := hfollows.completed.runs
  refine ⟨clients, reports, hrun, hshown, hfollows.arrived, fun hidle => ?_⟩
  have hsettles := hfollows.settles
  cases hpc : s.pc with
  | connect | recv | sleep =>
    simp only [Settles, hpc] at hsettles
    obtain ⟨hcurrent, hclients, hsent⟩ := hsettles
    exact ⟨hcurrent, hclients, hsent, hfollows.silent⟩
  | _ => simp [hpc] at hidle

/-- In every run of the two threads the chunks for which the list was copied are what was received,
in order, up to the one that still waits for its copy. A viewer joins once, and is then in the list
or closed. It is passed nothing but what was passed on since it joined, in order and without a gap,
and while it is in the list all of it, whenever no chunk is under way; it is closed only where a
send to it has failed, and not used again; and the removal of the dead never raises. -/
theorem relay_passes_segments (h : exec (step degrees metres) {} as = some s) :
    let w := notes degrees metres as
    (broadcasts w).flatten ++ s.pc.unsent = upstream w ∧
      (joins w).Nodup ∧ (s.clients ++ s.closed).Perm (joins w) ∧
      (∀ k, s.delivered k <+: since w k) ∧
      (s.pc.pending = [] → ∀ k ∈ s.clients, s.delivered k = since w k) ∧
      (∀ k ∈ s.closed, Note.failed k ∈ w) ∧
      (∀ chunk left dead, s.pc = .send chunk left dead → ∀ k ∈ left, k ∉ s.closed) ∧
      ∀ chunk dead, s.pc = .remove chunk dead →
        removeDead s.clients s.closed dead =
          (s.clients.filter (· ∉ dead), s.closed ++ dead, true) := by
  intro w
  have hs := exec_relayed h
  obtain ⟨clients, hfollows⟩ := hs.follows
  have hnodup : (s.clients ++ s.closed).Nodup := by
    refine hs.attended.nodup.append hs.attended.closedOnce fun k hk hclosed => ?_
    exact (hs.attended.gone k hclosed).2 hk
  refine ⟨hs.streams.broadcast, hs.streams.once, ?_, hs.streams.within,
    fun hidle => (hs.streams.idle hidle).1, fun k hk => hs.streams.failed k (Or.inl hk),
    fun chunk left dead hpc k hk hclosed => ?_,
    fun chunk dead hpc => (hfollows.remove hs.attended.nodup hpc).2.1⟩
  · refine (List.perm_ext_iff_of_nodup hnodup hs.streams.once).mpr fun k => ?_
    rw [hs.streams.joined, List.mem_append]
  · exact (hs.attended.gone k hclosed).2 ((hfollows.left hs.attended.nodup hpc).1 hk)

end Runs

end Threads

/-- One viewer joins before the first chunk and one while it is passed on; the second chunk does
not get through to the first viewer. -/
def twoViewersActions : List Action :=
  [.accept true, .append, .connect true, .recv (some [1, 2]), .snapshot, .accept true, .send none,
    .append, .finish, .decode, .recv (some [3, 4]), .snapshot, .send (some 1), .send none, .finish,
    .remove, .decode]

theorem threads_refine_turns_two :
    ∃ s, exec (step id id) {} twoViewersActions = some s ∧
      ∃ clients reports,
        run id id [] (progress (notes id id twoViewersActions)).sessions = some (clients, reports) ∧
        (progress (notes id id twoViewersActions)).sessions.map
          (List.map fun turn => (turn.arrivals, turn.chunk, turn.fails 0, turn.fails 1)) =
            [[([0], [1, 2], false, false), ([1], [3, 4], true, false)]] ∧
        s.clients = clients.map Client.socket ∧ ∀ c ∈ clients, s.delivered c.socket = c.sent := by
  have hrun : (exec (step id id) {} twoViewersActions).map Monitor.pc = some .recv := by
    decide +kernel
  obtain ⟨s, hs, hpc⟩ := Option.map_eq_some_iff.mp hrun
  have hfresh : (progress (notes id id twoViewersActions)).fresh = [] := by decide +kernel
  obtain ⟨clients, reports, hturns, -, -, hidle⟩ := threads_refine_turns hs
  obtain ⟨-, hclients, hsent, -⟩ := hidle (by rw [hpc]; rfl)
  rw [hfresh, List.append_nil] at hclients
  exact ⟨s, hs, clients, reports, hturns, by decide +kernel, hclients, hsent⟩

theorem relay_passes_segments_two :
    ∃ s, exec (step id id) {} twoViewersActions = some s ∧ s.clients = [1] ∧ s.closed = [0] ∧
      s.delivered 0 = [1, 2, 3] ∧ since (notes id id twoViewersActions) 0 = [1, 2, 3, 4] ∧
      missed (notes id id twoViewersActions) 1 = [1, 2] ∧ s.delivered 1 = [3, 4] ∧
      s.delivered 1 = since (notes id id twoViewersActions) 1 := by
  have hrun : (exec (step id id) {} twoViewersActions).map
      (fun s => (s.clients, s.closed, s.delivered 0, s.delivered 1, s.pc)) =
      some ([1], [0], [1, 2, 3], [3, 4], .recv) := by decide +kernel
  obtain ⟨s, hs, hlast⟩ := Option.map_eq_some_iff.mp hrun
  simp only [Prod.mk.injEq] at hlast
  obtain ⟨hclients, hclosed, hfirst, hsecond, hpc⟩ := hlast
  obtain ⟨-, -, -, -, hlive, -⟩ := relay_passes_segments hs
  exact ⟨s, hs, hclients, hclosed, hfirst, by decide +kernel, by decide +kernel, hsecond,
    hlive (by rw [hpc]; rfl) 1 (by simp [hclients])⟩

end Monitor

end AebNode.AngleMonitor
