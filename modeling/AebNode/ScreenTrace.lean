import AebNode.BeamToScreen
import AebNode.ViewerWindow

/-! From the LiDAR to the window of the viewer, over all of its sessions: the server serves the
connections one after the other, so that what the window draws comes in the order of the
revolutions even across reconnects. -/
namespace AebNode

section Keyed
variable {α : Type*}

theorem filter_key_sublist {l : List (ℕ × α)} (h : (l.map Prod.fst).Pairwise (· ≤ ·)) (k : ℕ) :
    (l.filter (fun e => e.1 = k) ++ l.filter fun e => k < e.1).Sublist l := by
  induction l with
  | nil => exact List.Sublist.slnil
  | cons e l ih =>
    rw [List.map_cons, List.pairwise_cons] at h
    obtain ⟨hfirst, hrest⟩ := h
    rcases lt_trichotomy e.1 k with hlt | heq | hgt
    · have hskip := (ih hrest).cons e
      simpa [hlt.ne, hlt.le] using hskip
    · have hkeep := (ih hrest).cons_cons e
      simpa [heq] using hkeep
    · have hnone : l.filter (fun e => e.1 = k) = [] := by
        rw [List.filter_eq_nil_iff]
        intro x hx
        have hle := hfirst x.1 (List.mem_map_of_mem hx)
        simp only [decide_eq_true_eq]
        omega
      simp [hgt, hgt.ne', hnone]

/-- Picking the entries of increasing keys keeps the order of the list. -/
theorem flatMap_key_sublist {l : List (ℕ × α)} (h : (l.map Prod.fst).Pairwise (· ≤ ·))
    {keys : List ℕ} (hkeys : keys.Pairwise (· < ·)) :
    (keys.flatMap fun k => l.filter fun e => e.1 = k).Sublist l := by
  induction keys generalizing l with
  | nil => exact List.nil_sublist l
  | cons k keys ih =>
    rw [List.pairwise_cons] at hkeys
    obtain ⟨hfirst, hrest⟩ := hkeys
    have hgreater : (keys.flatMap fun j => l.filter fun e => e.1 = j) =
        keys.flatMap fun j => (l.filter fun e => k < e.1).filter fun e => e.1 = j := by
      refine List.flatMap_congr fun j hj => ?_
      rw [List.filter_filter]
      refine List.filter_congr fun e _ => ?_
      have hlt := hfirst j hj
      by_cases he : e.1 = j <;> simp [he, hlt]
    rw [List.flatMap_cons, hgreater]
    have hsorted : ((l.filter fun e => k < e.1).map Prod.fst).Pairwise (· ≤ ·) :=
      h.sublist (List.filter_sublist.map _)
    exact ((List.Sublist.refl _).append (ih hsorted hrest)).trans (filter_key_sublist h k)

end Keyed

namespace TcpServer
open LidarViewer LittleEndian Machine Protocol

variable {ι : Type*}

/-- The connections are served in the order in which they were accepted. -/
structure ServedInOrder (s : TcpServer ι) (h : History ι) : Prop where
  sorted : (h.popped.map Prod.fst).Pairwise (· ≤ ·)
  current : ∀ k, s.session.socket = some k → ∀ e ∈ h.popped, e.1 ≤ k
  adopted : ∀ k, s.io.accepted = some k →
    (∀ e ∈ h.popped, e.1 ≤ k) ∧ ∀ j, s.session.socket = some j → j ≤ k

theorem ServedInOrder.frame {s t : TcpServer ι} {h g : History ι} (inv : ServedInOrder s h)
    (hpopped : g.popped = h.popped) (hsession : t.session.socket = s.session.socket)
    (haccepted : t.io.accepted = s.io.accepted) : ServedInOrder t g where
  sorted := hpopped ▸ inv.sorted
  current := by
    rw [hsession, hpopped]
    exact inv.current
  adopted := by
    rw [hsession, hpopped, haccepted]
    exact inv.adopted

theorem ServedInOrder.closed {s t : TcpServer ι} {h g : History ι} (inv : ServedInOrder s h)
    (hpopped : g.popped = h.popped) (hsocket : t.session.socket = none)
    (haccepted : t.io.accepted = s.io.accepted) : ServedInOrder t g where
  sorted := hpopped ▸ inv.sorted
  current := by simp [hsocket]
  adopted := by
    intro k hk
    rw [hpopped]
    exact ⟨(inv.adopted k (haccepted ▸ hk)).1, by simp [hsocket]⟩

theorem ServedInOrder.connected {s t : TcpServer ι} {h : History ι} (inv : ServedInOrder s h)
    (streams : StreamInvariant s h) (hsession : t.session = s.session)
    (haccepted : t.io.accepted = some s.connections.length) : ServedInOrder t h where
  sorted := inv.sorted
  current := by
    rw [hsession]
    exact inv.current
  adopted := by
    intro k hk
    obtain rfl : s.connections.length = k := Option.some.inj (haccepted.symm.trans hk)
    refine ⟨fun e he => (streams.sessions e he).le, fun j hj => ?_⟩
    rw [hsession] at hj
    obtain ⟨bytes, hbytes, -⟩ := streams.current j hj
    exact (List.getElem?_eq_some_iff.mp hbytes).1.le

theorem ServedInOrder.installed {s t : TcpServer ι} {h : History ι} (inv : ServedInOrder s h)
    (hsocket : t.session.socket = s.io.accepted) (haccepted : t.io.accepted = none) :
    ServedInOrder t h where
  sorted := inv.sorted
  current := fun k hk => (inv.adopted k (hsocket ▸ hk)).1
  adopted := by simp [haccepted]

theorem pump_servedInOrder {s t : TcpServer ι} {h : History ι} (inv : ServedInOrder s h)
    (hstep : s.ioStep .pump = some t) : ServedInOrder t (recordIo s h .pump) := by
  have hsame : t.session.socket = s.session.socket ∧ t.io.accepted = s.io.accepted := by
    simp only [ioStep, Option.ite_none_right_eq_some] at hstep
    obtain ⟨-, hstep⟩ := hstep
    split_ifs at hstep <;> obtain rfl := Option.some.inj hstep <;> exact ⟨rfl, rfl⟩
  obtain ⟨hsocket, haccepted⟩ := hsame
  simp only [recordIo]
  split_ifs with hoffset
  · exact inv.frame rfl hsocket haccepted
  split
  next k e rest hk hqueued =>
    have hmem : ∀ x ∈ h.popped ++ [(k, e)], x ∈ h.popped ∨ x = (k, e) := by simp
    constructor
    case sorted =>
      rw [List.map_append, List.pairwise_append]
      refine ⟨inv.sorted, List.pairwise_singleton _ _, ?_⟩
      intro i hi j hj
      obtain ⟨x, hx, rfl⟩ := List.mem_map.mp hi
      rw [List.mem_singleton.mp hj]
      exact inv.current k hk x hx
    case current =>
      intro j hj x hx
      obtain rfl : k = j := Option.some.inj (hk.symm.trans (hsocket.symm.trans hj))
      rcases hmem x hx with hx | rfl
      · exact inv.current k hk x hx
      · exact le_rfl
    case adopted =>
      intro j hj
      obtain ⟨hpopped, hbefore⟩ := inv.adopted j (haccepted ▸ hj)
      refine ⟨fun x hx => ?_, fun i hi => hbefore i (hsocket ▸ hi)⟩
      rcases hmem x hx with hx | rfl
      · exact hpopped x hx
      · exact hbefore k hk
  · exact inv.frame rfl hsocket haccepted

theorem ioStep_servedInOrder {s t : TcpServer ι} {h : History ι} {event : IoEvent}
    (streams : StreamInvariant s h) (inv : ServedInOrder s h) (hstep : s.ioStep event = some t) :
    ServedInOrder t (recordIo s h event) := by
  cases he : event.streams with
  | false =>
    obtain ⟨-, hsession, -, haccepted⟩ := ioStep_frame hstep he
    have hrecord : recordIo s h event = h := by cases event <;> first | rfl | contradiction
    rw [hrecord]
    exact inv.frame rfl (congrArg ClientSession.socket hsession) haccepted
  | true =>
    cases event <;> try contradiction
    case pump => exact pump_servedInOrder inv hstep
    all_goals
      simp only [ioStep, Option.ite_none_right_eq_some, Option.some.injEq] at hstep
      obtain ⟨-, hstep⟩ := hstep
    case send result =>
      cases result with
      | written n =>
        simp only [Option.ite_none_right_eq_some, Option.some.injEq] at hstep
        obtain ⟨-, rfl⟩ := hstep
        exact inv.frame rfl rfl rfl
      | _ => exact Option.some.inj hstep ▸ inv.frame rfl rfl rfl
    case accept result =>
      cases result with
      | interrupted => exact Option.some.inj hstep ▸ inv
      | notNonBlocking => exact Option.some.inj hstep ▸ inv
      | none => exact Option.some.inj hstep ▸ inv.frame rfl rfl rfl
      | connected =>
        obtain rfl := Option.some.inj hstep
        exact inv.connected streams rfl (by split_ifs <;> rfl)
    case install =>
      obtain rfl := hstep
      exact inv.installed rfl rfl
    case clearForSession | exitClear =>
      obtain rfl := hstep
      exact inv.frame rfl rfl rfl
    case service =>
      obtain rfl := hstep
      simp only [recordIo]
      cases hv : s.session.valid <;> exact inv.frame rfl rfl rfl
    case closeSession =>
      obtain rfl := hstep
      cases hv : s.session.valid with
      | true => exact inv.closed rfl rfl rfl
      | false => exact inv.frame rfl rfl rfl

theorem ownerStep_servedInOrder {s t : TcpServer ι} {h : History ι} {event : OwnerEvent}
    (inv : ServedInOrder s h) (hstep : s.ownerStep event = some t) : ServedInOrder t h := by
  obtain ⟨-, hsession, -, -, hio⟩ := ownerStep_frame hstep
  have hsocket := congrArg ClientSession.socket hsession
  rcases hio with hio | ⟨hio, -, -⟩
  · exact inv.frame rfl hsocket (congrArg IoThread.accepted hio)
  · refine ⟨inv.sorted, hsocket ▸ inv.current, fun k hk => ?_⟩
    simp [hio] at hk

variable [DecidableEq ι]

theorem tracedStep_servedInOrder {sh th : TcpServer ι × History ι} {a : Action ι}
    (streams : StreamInvariant sh.1 sh.2) (inv : ServedInOrder sh.1 sh.2)
    (hstep : tracedStep sh a = some th) : ServedInOrder th.1 th.2 := by
  obtain ⟨hs, hg⟩ := tracedStep_eq_some.mp hstep
  rw [hg]
  simp only [step, Option.ite_none_left_eq_some] at hs
  obtain ⟨-, hs⟩ := hs
  cases a with
  | publish p event =>
    obtain ⟨hsession, -, hio, -⟩ := publishStep_frame hs
    have hpopped : (recordPublish sh.1 sh.2 p event).popped = sh.2.popped := by
      cases event <;> rfl
    exact inv.frame hpopped (congrArg ClientSession.socket hsession)
      (congrArg IoThread.accepted hio)
  | owner event => exact ownerStep_servedInOrder inv hs
  | io event => exact ioStep_servedInOrder streams inv hs

theorem traced_servedInOrder {capacity : ℕ} {as : List (Action ι)} {s : TcpServer ι}
    {g : History ι} (h : exec tracedStep (new capacity, {}) as = some (s, g)) :
    ServedInOrder s g := by
  refine @exec_induction _ _ tracedStep (new capacity, {}) (fun _ sh => ServedInOrder sh.1 sh.2)
    ⟨List.Pairwise.nil, by simp, by simp [new]⟩ ?_ _ _ h
  intro as a sh th has inv hstep
  exact tracedStep_servedInOrder (traced_invariant has).2 inv hstep

/-- Over increasing connections the frames popped come in the order in which they were pushed. -/
theorem flatMap_poppedFor {capacity : ℕ} {as : List (Action ι)} {s : TcpServer ι}
    {g : History ι} (h : exec tracedStep (new capacity, {}) as = some (s, g)) {keys : List ℕ}
    (hkeys : keys.Pairwise (· < ·)) : (keys.flatMap (poppedFor g)).Sublist g.entered := by
  have hpicked := (flatMap_key_sublist (traced_servedInOrder h).sorted hkeys).map Prod.snd
  rw [List.map_flatMap] at hpicked
  exact hpicked.trans ((List.sublist_append_left _ _).trans (traced_invariant h).2.order)

section Window
variable {ρ μ : Type} (radians : FloatBits → ρ) (metres : FloatBits → μ)

/-- Each chunk list holds some of the first bytes that were sent on a connection of its own. -/
def ReadFrom (s : TcpServer ι) (received : List (List Bytes)) (keys : List ℕ) : Prop :=
  keys.Pairwise (· < ·) ∧ List.Forall₂ (fun chunks k =>
    ∃ bytes, s.connections[k]? = some bytes ∧ chunks.flatten <+: bytes) received keys

theorem sessions_shown {capacity : ℕ} {as : List (Action ι)} {s : TcpServer ι} {g : History ι}
    (h : exec tracedStep (new capacity, {}) as = some (s, g)) {received : List (List Bytes)}
    {keys : List ℕ} (hread : s.ReadFrom received keys) :
    ∃ done : List Entry, done.Sublist g.entered ∧
      received.flatMap (Viewer.sessionFrames radians metres) =
        done.map fun e => Reader.viewed radians metres e.frame := by
  obtain ⟨hkeys, hall⟩ := hread
  have hdone : ∃ done : List Entry, done.Sublist (keys.flatMap (poppedFor g)) ∧
      received.flatMap (Viewer.sessionFrames radians metres) =
        done.map fun e => Reader.viewed radians metres e.frame := by
    clear hkeys
    induction hall with
    | nil => exact ⟨[], List.Sublist.refl _, rfl⟩
    | cons hfirst _ ih =>
      obtain ⟨bytes, hbytes, hchunks⟩ := hfirst
      obtain ⟨rest, hrest, hframes⟩ := ih
      obtain ⟨done, kept, hprefix, hshown, -⟩ := session_shown radians id metres h hbytes hchunks
      obtain ⟨reports, hfeed, hreports⟩ := hshown.viewer
      refine ⟨done ++ rest, ?_, ?_⟩
      · rw [List.flatMap_cons]
        exact hprefix.sublist.append hrest
      · rw [List.flatMap_cons, hframes, Viewer.sessionFrames_eq hfeed, hreports, List.map_append,
          List.map_map]
        rfl
  obtain ⟨done, hsublist, hframes⟩ := hdone
  exact ⟨done, hsublist.trans (flatMap_poppedFor h hkeys), hframes⟩

end Window

end TcpServer

namespace Application
open CommandLine LidarViewer LittleEndian Machine Protocol TcpServer

variable {options : Options}

section Window
variable {ρ μ : Type} (radians : FloatBits → ρ) (metres : FloatBits → μ)

/-- Over every run of the application and every run of the viewer, whose sessions have received
some of the first bytes sent on connections that were accepted one after the other: what the
window draws are the visible points of frames that were published in this order, the brake was
decided of each, but for the one whose decision is next, and each comes from a revolution of its
own. No frame is drawn twice or before an earlier one, not even across sessions. -/
theorem window_shows_braked {capacity : ℕ} {as : List Action} {s : Application}
    (h : exec (step options) (new capacity) as = some s) {bs : List Viewer.Action}
    {v : Viewer ρ μ} (hv : exec (Viewer.step radians metres) {} bs = some v) {keys : List ℕ}
    (hread : s.server.ReadFrom
      ((Viewer.sessions (Viewer.notes radians metres bs)).filter fun chunks => chunks ≠ []) keys) :
    let seen := fates options capacity as
    ∃ shown : List Frame,
      (Viewer.drawn (Viewer.notes radians metres bs)).map Prod.snd =
        shown.map (Reader.viewed radians metres) ∧
      shown.Sublist (publications seen) ∧
      (shown.map fun frame => frame.map floatValue).Sublist (decided seen ++ s.undecided) ∧
      (shown.map fun frame => (frame.map floatValue).points).Sublist (grabs seen) := by
  intro seen
  rcases exec_tied h with ⟨g, hg, htied⟩
  rcases sessions_shown radians metres hg hread with ⟨done, hentered, hframes⟩
  have hwatched := Viewer.exec_watched hv
  have hdecoded : (Viewer.sessions (Viewer.notes radians metres bs)).flatMap
      (Viewer.sessionFrames radians metres) =
        done.map fun e => Reader.viewed radians metres e.frame := by
    rw [← hframes, Viewer.flatMap_sessionFrames]
  have hdrawn : ((Viewer.drawn (Viewer.notes radians metres bs)).map Prod.snd).Sublist
      (done.map fun e => Reader.viewed radians metres e.frame) := by
    rw [← hdecoded, ← hwatched.decoded]
    exact hwatched.within.trans ((List.take_sublist _ _).trans (List.sublist_append_left _ _))
  rcases List.sublist_map_iff.mp hdrawn with ⟨drawn, hsublist, hshown⟩
  rcases entered_seen h htied (hsublist.trans hentered) with ⟨hpublished, hdecided, hgrabs⟩
  refine ⟨drawn.map Entry.frame, ?_, hpublished, hdecided, hgrabs⟩
  rw [hshown, List.map_map]
  rfl

end Window

def secondReturn : Revolution := ⟨⟨true, .ok⟩, [⟨8192, 4000, 47⟩]⟩
def secondReturnFrame : Frame := ⟨1, 100000, [⟨0x42340000, 0x447A0000, 47⟩]⟩

/-- Behind the first frame the client hangs up and the next one is accepted, which is sent a second
frame before the brake is decided on it. -/
def reconnectActions : List Action :=
  overtakenActions ++
    ([.io .countProgress, .callback (.decide true), .acquisition (.callbackEnds false),
      .acquisition .countDelivered] : List Action) ++
    ioActions ([.io .loadStop, .io .prepare, .io (.pollReturns false true { hangUp := true }),
      .io .clientEvents, .io .closeSession, .io .clearConnected, .io .countDisconnect,
      .io .listenEvents, .io (.accept .connected), .io .install, .io .clearForSession,
      .io .countConnect, .io .service, .io .pump, .io .countProgress, .io .loadStop,
      .io .prepare] : List (TcpServer.Action Unit)) ++
    ([.acquisition .loadStop, .acquisition (.acquire secondReturn),
      .acquisition (.deliver ⟨100000000, by decide⟩),
      .callback (.publish (.call secondReturnFrame)),
      .callback (.publish .loadConnected), .callback (.publish .loadRunning),
      .callback (.publish .push), .callback (.publish (.signal .proceed)),
      .callback (.publish (.signal .proceed)), .callback (.publish (.signal .written))] :
      List Action) ++
    ioActions wakeActions ++ ([.io .pump, .io (.send (.written 42)), .io .pump] : List Action)

/-- The viewer draws one frame in each of two sessions, the second one before the brake is decided
on it. -/
theorem window_shows_braked_reconnect :
    let bs : List Viewer.Action := [.clearError, .connect none, .setConnected,
      .receive (.ok (encode oneReturnFrame)), .store, .fetch, .check, .receive (.error "reset"),
      .clearConnected, .setError, .sleep, .clearError, .connect none, .setConnected,
      .receive (.ok ((encode secondReturnFrame).take 20)),
      .receive (.ok ((encode secondReturnFrame).drop 20)), .store, .fetch, .check]
    let views := [Reader.viewed id id oneReturnFrame, Reader.viewed id id secondReturnFrame]
    ∃ s, exec (step {}) (new 4) reconnectActions = some s ∧
      s.server.connections = [encode oneReturnFrame, encode secondReturnFrame] ∧
      Viewer.drawn (Viewer.notes id id bs) =
        [(1, Reader.viewed id id oneReturnFrame), (2, Reader.viewed id id secondReturnFrame)] ∧
      (settlements (fates {} 4 reconnectActions)).length = 1 ∧
      ∃ shown : List Frame, views = shown.map (Reader.viewed id id) ∧
        (shown.map fun frame => frame.map floatValue).Sublist
          (decided (fates {} 4 reconnectActions) ++ s.undecided) := by
  intro bs views
  have hrun : (exec (step {}) (new 4) reconnectActions).map (fun s => s.server.connections) =
      some [encode oneReturnFrame, encode secondReturnFrame] := by
    decide +kernel
  obtain ⟨s, hs, hconnections⟩ := Option.map_eq_some_iff.mp hrun
  have hview : (exec (Viewer.step id id) ({} : Viewer FloatBits FloatBits) bs).isSome := by
    decide +kernel
  obtain ⟨v, hv⟩ := Option.isSome_iff_exists.mp hview
  have hsessions : Viewer.sessions (Viewer.notes id id bs) = [[encode oneReturnFrame],
      [(encode secondReturnFrame).take 20, (encode secondReturnFrame).drop 20]] := by
    decide +kernel
  have hdrawn : Viewer.drawn (Viewer.notes id id bs) =
      [(1, Reader.viewed id id oneReturnFrame), (2, Reader.viewed id id secondReturnFrame)] := by
    decide +kernel
  have hread : s.server.ReadFrom
      ((Viewer.sessions (Viewer.notes id id bs)).filter fun chunks => chunks ≠ []) [0, 1] := by
    rw [hsessions]
    exact ⟨by decide,
      .cons ⟨encode oneReturnFrame, by rw [hconnections]; rfl, by simp⟩
        (.cons ⟨encode secondReturnFrame, by rw [hconnections]; rfl, by simp⟩ .nil)⟩
  obtain ⟨shown, hshown, -, hdecided, -⟩ := window_shows_braked id id hs hv hread
  rw [hdrawn] at hshown
  exact ⟨s, hs, hconnections, hdrawn, by decide +kernel, shown, hshown, hdecided⟩

end Application

end AebNode
