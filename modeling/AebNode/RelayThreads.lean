import AebNode.ViewerWindow
import AebNode.RelayStream

/-! The relay of `angle_monitor.py` with its two threads: the accept loop, which appends viewers at
any time, and the receive loop, whose `broadcast` works on a copy of the list. The sockets that it
keeps, and the bytes that each of them has been passed since it joined. -/
namespace AebNode.AngleMonitor
open ChunkedReading LidarViewer LittleEndian Machine Protocol Reader

/-- Where `_accept_loop` is: an exception ends it. -/
inductive AcceptPc
  | accept
  | append (socket : ℕ)
  | ended
  deriving DecidableEq, Repr

/-- Where the main thread is, in `run`, `_run_session` or `broadcast`. -/
inductive MonitorPc
  | connect
  | recv
  | snapshot (chunk : Bytes)
  | send (chunk : Bytes) (left dead : List ℕ)
  | remove (chunk : Bytes) (dead : List ℕ)
  | decode (chunk : Bytes)
  | sleep
  deriving DecidableEq, Repr

/-- The chunk that is being passed on or is still to be decoded. -/
@[simp] def MonitorPc.pending : MonitorPc → List Bytes
  | .snapshot chunk | .send chunk _ _ | .remove chunk _ | .decode chunk => [chunk]
  | _ => []

/-- The clients that the broadcast has found dead. -/
@[simp] def MonitorPc.dead : MonitorPc → List ℕ
  | .send _ _ dead | .remove _ dead => dead
  | _ => []

/-- What the broadcast has still to pass on to a client. -/
@[simp] def MonitorPc.owed (k : ℕ) : MonitorPc → Bytes
  | .send chunk left _ => if k ∈ left then chunk else []
  | _ => []

/-- The chunk that waits for its copy of the list. -/
@[simp] def MonitorPc.unsent : MonitorPc → Bytes
  | .snapshot chunk => chunk
  | _ => []

/-- The relay with its clients by number of accept, the bytes each socket has been passed, and the
buffer of the session. -/
structure Monitor where
  acceptor : AcceptPc := .accept
  accepted : ℕ := 0
  clients : List ℕ := []
  delivered : ℕ → Bytes := fun _ => []
  closed : List ℕ := []
  pc : MonitorPc := .connect
  buf : Bytes := []

namespace Monitor

/-- The steps of the two threads. `accept`, `connect`, `recv` and `sendall` may raise, the last one
behind any part of the chunk. -/
inductive Action
  | accept (succeeds : Bool)
  | append
  | connect (succeeds : Bool)
  | recv (chunk : Option Bytes)
  | snapshot
  | send (failure : Option ℕ)
  | finish
  | remove
  | decode
  | sleep

/-- The loop over the dead clients, under the lock; `list.remove` raises where there is no such
client. -/
def removeDead : List ℕ → List ℕ → List ℕ → List ℕ × List ℕ × Bool
  | clients, closed, [] => (clients, closed, true)
  | clients, closed, d :: dead =>
    if d ∈ clients then removeDead (clients.erase d) (closed ++ [d]) dead
    else (clients, closed, false)

section Threads
variable {δ μ : Type} (degrees : FloatBits → δ) (metres : FloatBits → μ)

def step (s : Monitor) (a : Action) : Option Monitor :=
  match a, s.acceptor, s.pc with
  | .accept true, .accept, _ =>
    some { s with accepted := s.accepted + 1, acceptor := .append s.accepted }
  | .accept false, .accept, _ => some { s with acceptor := .ended }
  | .append, .append k, _ => some { s with clients := s.clients ++ [k], acceptor := .accept }
  | .connect true, _, .connect => some { s with buf := [], pc := .recv }
  | .connect false, _, .connect => some { s with pc := .sleep }
  | .recv none, _, .recv => some { s with pc := .sleep }
  | .recv (some chunk), _, .recv =>
    some { s with pc := if chunk.length = 0 then .sleep else .snapshot chunk }
  | .snapshot, _, .snapshot chunk => some { s with pc := .send chunk s.clients [] }
  | .send none, _, .send chunk (k :: left) dead =>
    some { s with
      delivered := Function.update s.delivered k (s.delivered k ++ chunk)
      pc := .send chunk left dead }
  | .send (some n), _, .send chunk (k :: left) dead =>
    some { s with
      delivered := Function.update s.delivered k (s.delivered k ++ chunk.take n)
      pc := .send chunk left (dead ++ [k]) }
  | .finish, _, .send chunk [] dead =>
    some { s with pc := if dead.isEmpty then .decode chunk else .remove chunk dead }
  | .remove, _, .remove chunk dead =>
    let r := removeDead s.clients s.closed dead
    some { s with
      clients := r.1
      closed := r.2.1
      pc := if r.2.2 then .decode chunk else .sleep }
  | .decode, _, .decode chunk =>
    (decodeFrames degrees metres (s.buf ++ chunk)).map fun r => { s with buf := r.2, pc := .recv }
  | .sleep, _, .sleep => some { s with pc := .connect }
  | _, _, _ => none

/-- What is noted of a run: the sessions, the chunks received in them, the viewers that join the
list, the copies of it that a chunk is passed on to, the sends that fail, and the frames shown. -/
inductive Note (δ μ : Type)
  | connected
  | received (chunk : Bytes)
  | joined (socket : ℕ)
  | broadcast (chunk : Bytes)
  | failed (socket : ℕ)
  | shown (frames : List (List (δ × μ × UInt8)))
  deriving DecidableEq, Repr

def note (s : Monitor) (a : Action) : List (Note δ μ) :=
  match a, s.acceptor, s.pc with
  | .append, .append k, _ => [.joined k]
  | .connect true, _, _ => [.connected]
  | .recv (some chunk), _, _ => if chunk.length = 0 then [] else [.received chunk]
  | .snapshot, _, .snapshot chunk => [.broadcast chunk]
  | .send (some _), _, .send _ (k :: _) _ => [.failed k]
  | .decode, _, .decode chunk => (decodeFrames degrees metres (s.buf ++ chunk)).toList.map fun r =>
    .shown r.1
  | _, _, _ => []

def notes (as : List Action) : List (Note δ μ) :=
  trace (step degrees metres) (note degrees metres) {} as

def received (w : List (Note δ μ)) : List (List Bytes) :=
  w.foldl (fun sessions n => match n with
    | .connected => sessions ++ [[]]
    | .received chunk => Viewer.arrive sessions chunk
    | _ => sessions) []

def shown (w : List (Note δ μ)) : List (List (List (δ × μ × UInt8))) :=
  w.filterMap fun
    | .shown frames => some frames
    | _ => none

def upstream (w : List (Note δ μ)) : Bytes := (received w).flatten.flatten

/-- The turns as they are noted: those completed in each session, the one whose chunk is being
passed on, and the viewers that have joined since its copy of the list. -/
structure Progress where
  sessions : List (List Turn) := []
  current : Option Turn := none
  fresh : List ℕ := []

def Progress.next (p : Progress) : Note δ μ → Progress
  | .connected => { p with sessions := p.sessions ++ [[]] }
  | .received _ => p
  | .joined k => { p with fresh := p.fresh ++ [k] }
  | .broadcast chunk => { p with current := some ⟨p.fresh, chunk, fun _ => false⟩, fresh := [] }
  | .failed k => { p with
      current := p.current.map fun turn =>
        { turn with fails := fun j => turn.fails j || decide (j = k) } }
  | .shown _ => { p with
      sessions := p.current.toList.foldl Viewer.arrive p.sessions, current := none }

def progress (w : List (Note δ μ)) : Progress := w.foldl Progress.next {}

def joins (w : List (Note δ μ)) : List ℕ :=
  w.filterMap fun
    | .joined k => some k
    | _ => none

/-- The chunks that were passed on to a copy of the list. -/
def broadcasts (w : List (Note δ μ)) : List Bytes :=
  w.filterMap fun
    | .broadcast chunk => some chunk
    | _ => none

def Note.joins (k : ℕ) : Note δ μ → Bool
  | .joined j => decide (j = k)
  | _ => false

/-- What was passed on before a viewer joined. -/
def missed (w : List (Note δ μ)) (k : ℕ) : Bytes :=
  (broadcasts (w.takeWhile fun n => !n.joins k)).flatten

/-- What was passed on from then on. -/
def since (w : List (Note δ μ)) (k : ℕ) : Bytes :=
  (broadcasts (w.dropWhile fun n => !n.joins k)).flatten

variable {degrees metres}

@[simp] theorem received_connected (w : List (Note δ μ)) :
    received (w ++ [.connected]) = received w ++ [[]] := by
  simp [received]

@[simp] theorem received_chunk (w : List (Note δ μ)) (chunk : Bytes) :
    received (w ++ [.received chunk]) = Viewer.arrive (received w) chunk := by
  simp [received]

@[simp] theorem received_shown (w : List (Note δ μ)) (frames : List (List (δ × μ × UInt8))) :
    received (w ++ [.shown frames]) = received w := by
  simp [received]

@[simp] theorem received_joined (w : List (Note δ μ)) (k : ℕ) :
    received (w ++ [.joined k]) = received w := by
  simp [received]

@[simp] theorem received_broadcast (w : List (Note δ μ)) (chunk : Bytes) :
    received (w ++ [.broadcast chunk]) = received w := by
  simp [received]

@[simp] theorem received_failed (w : List (Note δ μ)) (k : ℕ) :
    received (w ++ [.failed k]) = received w := by
  simp [received]

@[simp] theorem progress_concat (w : List (Note δ μ)) (n : Note δ μ) :
    progress (w ++ [n]) = (progress w).next n := by
  simp [progress]

@[simp] theorem joins_append (w v : List (Note δ μ)) : joins (w ++ v) = joins w ++ joins v :=
  List.filterMap_append

@[simp] theorem broadcasts_append (w v : List (Note δ μ)) :
    broadcasts (w ++ v) = broadcasts w ++ broadcasts v :=
  List.filterMap_append

@[simp] theorem shown_append (w v : List (Note δ μ)) : shown (w ++ v) = shown w ++ shown v :=
  List.filterMap_append

/-- A note adds to what a viewer was passed if it has joined. -/
theorem since_append (w v : List (Note δ μ)) (k : ℕ) :
    since (w ++ v) k = if k ∈ joins w then since w k ++ (broadcasts v).flatten else since v k := by
  induction w with
  | nil => rfl
  | cons n w ih =>
    by_cases hn : n.joins k
    · have hmem : k ∈ joins (n :: w) := by
        cases n <;> simp_all [Note.joins, joins]
      rw [if_pos hmem, since, List.cons_append, since,
        List.dropWhile_cons_of_neg (by simpa using hn),
        List.dropWhile_cons_of_neg (by simpa using hn), ← List.cons_append, broadcasts_append,
        List.flatten_append]
    · have hmem : k ∈ joins (n :: w) ↔ k ∈ joins w := by
        cases n <;> simp_all [Note.joins, joins, eq_comm]
      have hdrop : ∀ v : List (Note δ μ), since (n :: v) k = since v k := fun v => by
        rw [since, List.dropWhile_cons_of_pos (by simpa using hn), since]
      rw [List.cons_append, hdrop, ih, hdrop]
      exact if_congr hmem.symm rfl rfl

theorem since_nil_of_quiet {v : List (Note δ μ)} (h : broadcasts v = []) (k : ℕ) :
    since v k = [] := by
  have hsub : (broadcasts (v.dropWhile fun n => !n.joins k)).Sublist (broadcasts v) :=
    (List.dropWhile_sublist _).filterMap _
  rw [h] at hsub
  rw [since, List.sublist_nil.mp hsub]
  rfl

theorem since_quiet {v : List (Note δ μ)} (h : broadcasts v = []) (w : List (Note δ μ)) (k : ℕ) :
    since (w ++ v) k = since w k := by
  rw [since_append, h, since_nil_of_quiet h]
  split_ifs with hk
  · exact List.append_nil _
  · have hw := since_append w ([] : List (Note δ μ)) k
    rw [List.append_nil, if_neg hk] at hw
    exact hw.symm

theorem missed_since (w : List (Note δ μ)) (k : ℕ) :
    missed w k ++ since w k = (broadcasts w).flatten := by
  rw [missed, since, ← List.flatten_append, ← broadcasts_append, List.takeWhile_append_dropWhile]

theorem removeDead_eq {clients closed dead : List ℕ} (hclients : clients.Nodup)
    (hdead : dead.Sublist clients) :
    removeDead clients closed dead = (clients.filter (· ∉ dead), closed ++ dead, true) := by
  induction dead generalizing clients closed with
  | nil => simp [removeDead]
  | cons d dead ih =>
    have hmem : d ∈ clients := hdead.subset List.mem_cons_self
    have hfresh : d ∉ dead := (List.nodup_cons.mp (hclients.sublist hdead)).1
    have hrest : dead.Sublist (clients.erase d) := by
      have herase := hdead.erase d
      rwa [List.erase_cons_head] at herase
    rw [removeDead, if_pos hmem, ih (hclients.erase d) hrest, hclients.erase_eq_filter,
      List.filter_filter, List.append_assoc, List.singleton_append]
    refine congrArg (·, _) (List.filter_congr fun k _ => ?_)
    by_cases hk : k = d <;> simp [hk]

/-- The lists of sockets that the two threads keep. -/
structure Attended (s : Monitor) : Prop where
  known : ∀ k ∈ s.clients, k < s.accepted
  gone : ∀ k ∈ s.closed, k < s.accepted ∧ k ∉ s.clients
  nodup : s.clients.Nodup
  closedOnce : s.closed.Nodup
  waiting : ∀ k, s.acceptor = .append k → k < s.accepted ∧ k ∉ s.clients ∧ k ∉ s.closed
  silent : ∀ k, k ∉ s.clients → k ∉ s.closed → s.delivered k = []

/-- The bytes that each viewer has been passed, and those of the stream that went before it. -/
structure Streams (w : List (Note δ μ)) (s : Monitor) : Prop where
  live : ∀ k ∈ s.clients, k ∉ s.pc.dead → since w k = s.delivered k ++ s.pc.owed k
  within : ∀ k, s.delivered k <+: since w k
  joined : ∀ k, k ∈ joins w ↔ k ∈ s.clients ∨ k ∈ s.closed
  once : (joins w).Nodup
  broadcast : (broadcasts w).flatten ++ s.pc.unsent = upstream w
  failed : ∀ k, k ∈ s.closed ∨ k ∈ s.pc.dead → Note.failed k ∈ w

section Steps
variable {w : List (Note δ μ)} {s : Monitor}

theorem Attended.accept (hs : Attended s) :
    Attended { s with accepted := s.accepted + 1, acceptor := .append s.accepted } := by
  refine ⟨fun k hk => (hs.known k hk).trans (Nat.lt_succ_self _),
    fun k hk => ⟨(hs.gone k hk).1.trans (Nat.lt_succ_self _), (hs.gone k hk).2⟩, hs.nodup,
    hs.closedOnce, ?_, hs.silent⟩
  rintro k hk
  obtain rfl := AcceptPc.append.inj hk
  exact ⟨Nat.lt_succ_self _, fun hmem => (hs.known _ hmem).false,
    fun hmem => (hs.gone _ hmem).1.false⟩

theorem Attended.append (hs : Attended s) {k : ℕ} (hk : s.acceptor = .append k) :
    Attended { s with clients := s.clients ++ [k], acceptor := .accept } := by
  obtain ⟨hlt, hclients, hclosed⟩ := hs.waiting k hk
  have hmem : ∀ j, j ∈ s.clients ++ [k] ↔ j ∈ s.clients ∨ j = k := by simp
  constructor
  case known =>
    intro j hj
    rcases (hmem j).mp hj with hj | rfl
    · exact hs.known j hj
    · exact hlt
  case gone =>
    intro j hj
    obtain ⟨hj', hnot⟩ := hs.gone j hj
    refine ⟨hj', fun hin => ?_⟩
    rcases (hmem j).mp hin with hin | rfl
    · exact hnot hin
    · exact hclosed hj
  case nodup =>
    exact hs.nodup.append (List.nodup_singleton k) (by simpa using hclients)
  case closedOnce => exact hs.closedOnce
  case waiting => simp
  case silent =>
    intro j hj
    exact hs.silent j fun hin => hj ((hmem j).mpr (Or.inl hin))

theorem Attended.send (hs : Attended s) {k : ℕ} (hk : k ∈ s.clients) (bytes : Bytes)
    (pc : MonitorPc) :
    Attended { s with delivered := Function.update s.delivered k bytes, pc := pc } := by
  refine ⟨hs.known, hs.gone, hs.nodup, hs.closedOnce, hs.waiting, ?_⟩
  intro j hj hclosed
  have hne : j ≠ k := fun he => hj (he ▸ hk)
  exact (Function.update_of_ne hne _ _).trans (hs.silent j hj hclosed)

theorem Attended.remove (hs : Attended s) {dead : List ℕ} (hdead : dead.Sublist s.clients)
    (pc : MonitorPc) :
    Attended { s with
      clients := s.clients.filter (· ∉ dead)
      closed := s.closed ++ dead
      pc := pc } := by
  have hmem : ∀ j, j ∈ s.clients.filter (· ∉ dead) ↔ j ∈ s.clients ∧ j ∉ dead := by simp
  have hgone : ∀ j, j ∈ s.closed ++ dead ↔ j ∈ s.closed ∨ j ∈ dead := by simp
  constructor
  case known => exact fun j hj => hs.known j ((hmem j).mp hj).1
  case gone =>
    intro j hj
    rcases (hgone j).mp hj with hj | hj
    · exact ⟨(hs.gone j hj).1, fun hin => (hs.gone j hj).2 ((hmem j).mp hin).1⟩
    · exact ⟨hs.known j (hdead.subset hj), fun hin => ((hmem j).mp hin).2 hj⟩
  case nodup => exact hs.nodup.filter _
  case closedOnce =>
    refine hs.closedOnce.append (hs.nodup.sublist hdead) ?_
    intro j hj hin
    exact (hs.gone j hj).2 (hdead.subset hin)
  case waiting =>
    intro j hj
    obtain ⟨hlt, hclients, hclosed⟩ := hs.waiting j hj
    refine ⟨hlt, fun hin => hclients ((hmem j).mp hin).1, fun hin => ?_⟩
    rcases (hgone j).mp hin with hin | hin
    · exact hclosed hin
    · exact hclients (hdead.subset hin)
  case silent =>
    intro j hj hclosed
    have hnot : j ∉ dead := fun hin => hclosed ((hgone j).mpr (Or.inr hin))
    exact hs.silent j (fun hin => hj ((hmem j).mpr ⟨hin, hnot⟩))
      fun hin => hclosed ((hgone j).mpr (Or.inl hin))

theorem Attended.idle (hs : Attended s) (pc : MonitorPc) (buf : Bytes) :
    Attended { s with pc := pc, buf := buf } :=
  ⟨hs.known, hs.gone, hs.nodup, hs.closedOnce, hs.waiting, hs.silent⟩

theorem Streams.idle (hs : Streams w s) (hidle : s.pc.pending = []) :
    (∀ k ∈ s.clients, s.delivered k = since w k) ∧ (broadcasts w).flatten = upstream w := by
  have hlive := hs.live
  have hall := hs.broadcast
  cases hpc : s.pc with
  | connect | recv | sleep =>
    simp only [hpc, MonitorPc.dead, MonitorPc.owed, MonitorPc.unsent, List.append_nil] at hlive hall
    exact ⟨fun k hk => (hlive k hk List.not_mem_nil).symm, hall⟩
  | _ => simp [hpc] at hidle

/-- A step of the main thread that passes nothing on and takes no client off the list. -/
theorem Streams.moves (hs : Streams w s) {n : List (Note δ μ)} {pc : MonitorPc} {buf : Bytes}
    (hjoins : joins n = []) (hquiet : broadcasts n = []) (hdead : pc.dead = s.pc.dead)
    (howed : ∀ k, pc.owed k = s.pc.owed k)
    (hupstream : (broadcasts w).flatten ++ pc.unsent = upstream (w ++ n)) :
    Streams (w ++ n) { s with pc := pc, buf := buf } := by
  constructor
  case live =>
    intro k hk halive
    rw [since_quiet hquiet, howed]
    exact hs.live k hk (hdead ▸ halive)
  case within =>
    intro k
    rw [since_quiet hquiet]
    exact hs.within k
  case joined => simpa [hjoins] using hs.joined
  case once => simpa [hjoins] using hs.once
  case broadcast => simpa [hquiet] using hupstream
  case failed =>
    intro k hk
    exact List.mem_append_left _ (hs.failed k (hdead ▸ hk))

theorem Streams.append (hs : Streams w s) {k : ℕ} (hclients : k ∉ s.clients)
    (hclosed : k ∉ s.closed) (hdelivered : s.delivered k = []) (howed : s.pc.owed k = []) :
    Streams (w ++ [.joined k]) { s with clients := s.clients ++ [k], acceptor := .accept } := by
  have hfresh : k ∉ joins w := fun hk => ((hs.joined k).mp hk).elim hclients hclosed
  have hjoin : joins ([.joined k] : List (Note δ μ)) = [k] := rfl
  have hsince : ∀ j, since (w ++ [.joined k]) j = since w j := fun j => since_quiet rfl w j
  constructor
  case live =>
    intro j hj halive
    rw [hsince]
    rcases List.mem_append.mp hj with hj | hj
    · exact hs.live j hj halive
    · obtain rfl := List.mem_singleton.mp hj
      have hnone : since w j = [] := by
        rw [← hsince, since_append, if_neg hfresh]
        exact since_nil_of_quiet rfl j
      rw [hnone, hdelivered, howed]
      rfl
  case within =>
    intro j
    rw [hsince]
    exact hs.within j
  case joined =>
    intro j
    rw [joins_append, List.mem_append, hs.joined, hjoin]
    simp only [List.mem_append]
    tauto
  case once =>
    rw [joins_append, hjoin]
    exact hs.once.append (List.nodup_singleton k) (by simpa using hfresh)
  case broadcast => simpa [upstream, broadcasts] using hs.broadcast
  case failed => exact fun j hj => List.mem_append_left _ (hs.failed j hj)

theorem Streams.snapshot (hs : Streams w s) {chunk : Bytes} (hpc : s.pc = .snapshot chunk) :
    Streams (w ++ [.broadcast chunk]) { s with pc := .send chunk s.clients [] } := by
  have hsince : ∀ k ∈ joins w, since (w ++ [.broadcast chunk]) k = since w k ++ chunk := by
    intro k hk
    rw [since_append, if_pos hk]
    simp [broadcasts]
  have hlive : ∀ k ∈ s.clients, since w k = s.delivered k := fun k hk => by
    simpa [hpc] using hs.live k hk (by simp [hpc])
  constructor
  case live =>
    intro k hk _
    rw [hsince k ((hs.joined k).mpr (Or.inl hk)), hlive k hk]
    simp [hk]
  case within =>
    intro k
    refine (hs.within k).trans ?_
    by_cases hk : k ∈ joins w
    · rw [hsince k hk]
      exact List.prefix_append _ _
    · have hnone := since_append w ([] : List (Note δ μ)) k
      rw [List.append_nil, if_neg hk] at hnone
      rw [hnone]
      exact List.nil_prefix
  case joined => simpa [joins] using hs.joined
  case once => simpa [joins] using hs.once
  case broadcast =>
    have hall := hs.broadcast
    rw [hpc] at hall
    simpa [broadcasts, upstream] using hall
  case failed =>
    intro k hk
    exact List.mem_append_left _ (hs.failed k (Or.inl (hk.resolve_right List.not_mem_nil)))

theorem Streams.send (hs : Streams w s) {chunk bytes : Bytes} {k : ℕ} {left dead dead' : List ℕ}
    {n : List (Note δ μ)} (hpc : s.pc = .send chunk (k :: left) dead) (hk : k ∈ s.clients)
    (halive : k ∉ dead) (hleft : k ∉ left) (hbytes : bytes <+: chunk)
    (houtcome : bytes = chunk ∧ dead' = dead ∧ n = [] ∨ dead' = dead ++ [k] ∧ n = [.failed k]) :
    Streams (w ++ n) { s with
      delivered := Function.update s.delivered k (s.delivered k ++ bytes)
      pc := .send chunk left dead' } := by
  have hnoted : joins n = [] ∧ broadcasts n = [] ∧ upstream (w ++ n) = upstream w := by
    rcases houtcome with ⟨-, -, rfl⟩ | ⟨-, rfl⟩
    · simp [joins, broadcasts]
    · simp [joins, broadcasts, upstream]
  obtain ⟨hjoins, hquiet, hupstream⟩ := hnoted
  have howed : since w k = s.delivered k ++ chunk := by
    simpa [hpc] using hs.live k hk (by simpa [hpc] using halive)
  constructor
  case live =>
    intro j hj hnot
    rw [since_quiet hquiet]
    by_cases he : j = k
    · subst he
      rcases houtcome with ⟨rfl, -, -⟩ | ⟨rfl, -⟩
      · simp [howed, hleft]
      · exact absurd (by simp) hnot
    · have hbefore : j ∉ s.pc.dead := by
        rw [hpc]
        rcases houtcome with ⟨-, rfl, -⟩ | ⟨rfl, -⟩
        · exact hnot
        · exact fun hmem => hnot (List.mem_append_left _ hmem)
      have hlive := hs.live j hj hbefore
      simp only [hpc, MonitorPc.owed, List.mem_cons, he, false_or] at hlive
      simpa [Function.update_of_ne he] using hlive
  case within =>
    intro j
    rw [since_quiet hquiet]
    by_cases he : j = k
    · subst he
      simpa [howed] using hbytes
    · simpa [Function.update_of_ne he] using hs.within j
  case joined => simpa [hjoins] using hs.joined
  case once => simpa [hjoins] using hs.once
  case broadcast => simpa [hpc, hquiet, hupstream] using hs.broadcast
  case failed =>
    intro j hj
    have hfailed := hs.failed j
    rw [hpc] at hfailed
    rcases houtcome with ⟨-, rfl, rfl⟩ | ⟨rfl, rfl⟩
    · simpa using hfailed hj
    · rcases hj with hj | hj
      · exact List.mem_append_left _ (hfailed (Or.inl hj))
      · rcases List.mem_append.mp hj with hj | hj
        · exact List.mem_append_left _ (hfailed (Or.inr hj))
        · simp [List.mem_singleton.mp hj]

theorem Streams.remove (hs : Streams w s) {chunk : Bytes} {dead : List ℕ}
    (hpc : s.pc = .remove chunk dead) (hdead : dead ⊆ s.clients) :
    Streams w { s with
      clients := s.clients.filter (· ∉ dead)
      closed := s.closed ++ dead
      pc := .decode chunk } := by
  constructor
  case live =>
    intro k hk _
    obtain ⟨hmem, halive⟩ := List.mem_filter.mp hk
    simpa [hpc] using hs.live k hmem (by simpa [hpc] using halive)
  case within => exact hs.within
  case joined =>
    intro k
    rw [hs.joined, List.mem_filter, List.mem_append]
    by_cases hk : k ∈ dead
    · simp [hk, hdead hk]
    · simp [hk]
  case once => exact hs.once
  case broadcast => simpa [hpc] using hs.broadcast
  case failed =>
    intro k hk
    exact hs.failed k (by simpa [hpc] using hk)

end Steps

end Threads

end Monitor

end AebNode.AngleMonitor
