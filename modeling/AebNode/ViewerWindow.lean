import AebNode.Machine
import AebNode.StreamDelivery

/-! The viewer around its decoder: the receiver thread, which opens session after session and
keeps the frame it has decoded last, and the window, which samples that frame at its own pace. -/
namespace AebNode.LidarViewer
open LittleEndian Machine Protocol Reader

/-- Where the receiver thread is: in `run`, in `_run_session` with the decoded frames it has still
to store, or in the handler of `run`. -/
inductive ReceiverPc (ρ μ : Type)
  | clearError
  | connect
  | setConnected
  | session (frames : List (List (ρ × μ)))
  | clearConnected (what : String)
  | setError (what : String)
  | sleep
  deriving DecidableEq, Repr

@[simp] def ReceiverPc.pending {ρ μ : Type} : ReceiverPc ρ μ → List (List (ρ × μ))
  | .session frames => frames
  | _ => []

@[simp] def ReceiverPc.reads {ρ μ : Type} : ReceiverPc ρ μ → Bool
  | .setConnected | .session _ => true
  | _ => false

inductive WindowPc (ρ μ : Type)
  | idle
  | fetched (points : List (ρ × μ)) (count : ℕ)
  | showError
  deriving DecidableEq, Repr

inductive Status
  | connecting
  | reconnecting (error : String)
  | frame (count points : ℕ)
  deriving DecidableEq, Repr

/-- The receiver with its decoder and the attributes it shares, and the window with its plot. -/
structure Viewer (ρ μ : Type) where
  receiver : ReceiverPc ρ μ := .clearError
  buffer : Bytes := []
  connected : Bool := false
  error : String := ""
  latest : List (ρ × μ) := []
  frameCount : ℕ := 0
  window : WindowPc ρ μ := .idle
  lastFrameIdx : ℤ := -1
  plot : List (ρ × μ) := []
  status : Status := .connecting
  deriving DecidableEq, Repr

namespace Viewer

/-- The steps of the two threads. `connect` and `recv` may raise; `recv` returns nothing once the
peer has closed. -/
inductive Action
  | clearError
  | connect (failure : Option String)
  | setConnected
  | receive (outcome : Except String Bytes)
  | store
  | clearConnected
  | setError
  | sleep
  | fetch
  | check
  | showError

section Threads
variable {ρ μ : Type} (radians : FloatBits → ρ) (metres : FloatBits → μ)

/-- The window draws what it fetched. -/
def Draws (s : Viewer ρ μ) (points : List (ρ × μ)) (count : ℕ) : Prop :=
  s.connected = true ∧ (count : ℤ) ≠ s.lastFrameIdx ∧ points.isEmpty = false

instance (s : Viewer ρ μ) (points : List (ρ × μ)) (count : ℕ) : Decidable (s.Draws points count) :=
  inferInstanceAs (Decidable (_ ∧ _))

/-- One step of the receiver, whose accesses to the shared frame are under a lock, or of the
window. -/
def step (s : Viewer ρ μ) (a : Action) : Option (Viewer ρ μ) :=
  match a, s.receiver, s.window with
  | .clearError, .clearError, _ => some { s with error := "", receiver := .connect }
  | .connect none, .connect, _ => some { s with buffer := [], receiver := .setConnected }
  | .connect (some what), .connect, _ => some { s with receiver := .clearConnected what }
  | .setConnected, .setConnected, _ => some { s with connected := true, receiver := .session [] }
  | .receive (.error what), .session [], _ => some { s with receiver := .clearConnected what }
  | .receive (.ok chunk), .session [], _ =>
    if chunk.length = 0 then
      some { s with receiver := .clearConnected "Server closed connection" }
    else (decodeAll radians metres (feed s.buffer chunk)).map fun r =>
      { s with buffer := r.2, receiver := .session r.1 }
  | .store, .session (frame :: frames), _ =>
    some { s with
      latest := frame
      frameCount := s.frameCount + 1
      receiver := .session frames }
  | .clearConnected, .clearConnected what, _ =>
    some { s with connected := false, receiver := .setError what }
  | .setError, .setError what, _ => some { s with error := what, receiver := .sleep }
  | .sleep, .sleep, _ => some { s with receiver := .clearError }
  | .fetch, _, .idle => some { s with window := .fetched s.latest s.frameCount }
  | .check, _, .fetched points count =>
    some (if ¬ s.connected then { s with window := .showError }
      else if s.Draws points count then
        { s with
          lastFrameIdx := count
          plot := points
          status := .frame count points.length
          window := .idle }
      else { s with window := .idle })
  | .showError, _, .showError =>
    some { s with status := .reconnecting s.error, window := .idle }
  | _, _, _ => none

/-- What is noted of a run: the sessions, what arrives in them, the frames that are stored and
those that are drawn, with their numbers. -/
inductive Note (ρ μ : Type)
  | connected
  | received (chunk : Bytes)
  | stored (points : List (ρ × μ))
  | drawn (count : ℕ) (points : List (ρ × μ))
  deriving DecidableEq, Repr

def note (s : Viewer ρ μ) : Action → List (Note ρ μ)
  | .connect none => [.connected]
  | .receive (.ok chunk) => if chunk.length = 0 then [] else [.received chunk]
  | .store => match s.receiver with
    | .session (frame :: _) => [.stored frame]
    | _ => []
  | .check => match s.window with
    | .fetched points count => if s.Draws points count then [.drawn count points] else []
    | _ => []
  | _ => []

def notes (as : List Action) : List (Note ρ μ) :=
  trace (step radians metres) note ({} : Viewer ρ μ) as

/-- What came in each session, with one thing more. -/
def arrive {α : Type*} : List (List α) → α → List (List α)
  | [], _ => []
  | [chunks], chunk => [chunks ++ [chunk]]
  | chunks :: sessions, chunk => chunks :: arrive sessions chunk

def sessions (w : List (Note ρ μ)) : List (List Bytes) :=
  w.foldl (fun sessions n => match n with
    | .connected => sessions ++ [[]]
    | .received chunk => arrive sessions chunk
    | _ => sessions) []

def stored (w : List (Note ρ μ)) : List (List (ρ × μ)) :=
  w.filterMap fun
    | .stored points => some points
    | _ => none

def drawn (w : List (Note ρ μ)) : List (ℕ × List (ρ × μ)) :=
  w.filterMap fun
    | .drawn count points => some (count, points)
    | _ => none

def sessionFrames (chunks : List Bytes) : List (List (ρ × μ)) :=
  match feedAll (decodeAll radians metres) [] chunks with
  | some (reports, _) => reports.flatten
  | none => []

variable {radians metres}

@[simp] theorem sessions_connected (w : List (Note ρ μ)) :
    sessions (w ++ [.connected]) = sessions w ++ [[]] := by
  simp [sessions]

@[simp] theorem sessions_received (w : List (Note ρ μ)) (chunk : Bytes) :
    sessions (w ++ [.received chunk]) = arrive (sessions w) chunk := by
  simp [sessions]

@[simp] theorem sessions_stored (w : List (Note ρ μ)) (points : List (ρ × μ)) :
    sessions (w ++ [.stored points]) = sessions w := by
  simp [sessions]

@[simp] theorem sessions_drawn (w : List (Note ρ μ)) (count : ℕ) (points : List (ρ × μ)) :
    sessions (w ++ [.drawn count points]) = sessions w := by
  simp [sessions]

@[simp] theorem stored_append (w v : List (Note ρ μ)) :
    stored (w ++ v) = stored w ++ stored v := List.filterMap_append

@[simp] theorem drawn_append (w v : List (Note ρ μ)) :
    drawn (w ++ v) = drawn w ++ drawn v := List.filterMap_append

theorem arrive_concat {α : Type*} (past : List (List α)) (chunks : List α) (chunk : α) :
    arrive (past ++ [chunks]) chunk = past ++ [chunks ++ [chunk]] := by
  induction past with
  | nil => rfl
  | cons first past ih =>
    cases past with
    | nil => rfl
    | cons second past => exact congrArg (first :: ·) ih

theorem sessionFrames_eq {chunks : List Bytes} {reports : List (List (List (ρ × μ)))}
    {buffer : Bytes}
    (h : feedAll (decodeAll radians metres) [] chunks = some (reports, buffer)) :
    sessionFrames radians metres chunks = reports.flatten := by
  rw [sessionFrames, h]

/-- A session in which nothing arrived shows nothing. -/
theorem flatMap_sessionFrames (received : List (List Bytes)) :
    (received.filter fun chunks => chunks ≠ []).flatMap (sessionFrames radians metres) =
      received.flatMap (sessionFrames radians metres) := by
  induction received with
  | nil => rfl
  | cons chunks received ih =>
    cases chunks with
    | nil => simpa [sessionFrames, feedAll] using ih
    | cons chunk chunks => simpa using ih

/-- What the two threads have in hand, told from what was noted. -/
structure Watched (radians : FloatBits → ρ) (metres : FloatBits → μ) (w : List (Note ρ μ))
    (s : Viewer ρ μ) : Prop where
  decoded : stored w ++ s.receiver.pending = (sessions w).flatMap (sessionFrames radians metres)
  reading : s.receiver.reads = true → ∃ past chunks reports, sessions w = past ++ [chunks] ∧
    feedAll (decodeAll radians metres) [] chunks = some (reports, s.buffer)
  count : s.frameCount = (stored w).length
  latest : s.latest = (stored w).getLast?.getD []
  fetched : ∀ points count, s.window = .fetched points count → s.lastFrameIdx ≤ count ∧
    count ≤ (stored w).length ∧ points = ((stored w).take count).getLast?.getD []
  drawnAt : ∀ d ∈ drawn w, 0 < d.1 ∧ (stored w)[d.1 - 1]? = some d.2 ∧ d.2 ≠ []
  increasing : ((drawn w).map Prod.fst).Pairwise (· < ·)
  below : ∀ d ∈ drawn w, (d.1 : ℤ) ≤ s.lastFrameIdx
  last : s.lastFrameIdx = ((drawn w).getLast?.map fun d => (d.1 : ℤ)).getD (-1)
  within : ((drawn w).map Prod.snd).Sublist ((stored w).take s.lastFrameIdx.toNat)
  plot : s.plot = ((drawn w).getLast?.map Prod.snd).getD []

theorem new_watched : Watched radians metres [] ({} : Viewer ρ μ) := by
  refine ⟨rfl, ?_, rfl, rfl, ?_, ?_, ?_, ?_, rfl, ?_, rfl⟩ <;> simp [drawn]

theorem Watched.lastFrameIdx_le {w : List (Note ρ μ)} {s : Viewer ρ μ}
    (hs : Watched radians metres w s) : s.lastFrameIdx ≤ s.frameCount := by
  rw [hs.last, hs.count]
  rcases hlast : (drawn w).getLast? with _ | d
  · simp only [Option.map_none, Option.getD_none]
    omega
  · obtain ⟨hpos, hat, -⟩ := hs.drawnAt d (List.mem_of_getLast? hlast)
    obtain ⟨hlt, -⟩ := List.getElem?_eq_some_iff.mp hat
    simp only [Option.map_some, Option.getD_some]
    omega

theorem Watched.receiver {w : List (Note ρ μ)} {s : Viewer ρ μ} {n : List (Note ρ μ)}
    (hs : Watched radians metres w s) {receiver : ReceiverPc ρ μ} {buffer : Bytes}
    (connected : Bool) (error : String) (hstored : stored n = []) (hdrawn : drawn n = [])
    (hdecoded : stored w ++ receiver.pending =
      (sessions (w ++ n)).flatMap (sessionFrames radians metres))
    (hreading : receiver.reads = true → ∃ past chunks reports,
      sessions (w ++ n) = past ++ [chunks] ∧
        feedAll (decodeAll radians metres) [] chunks = some (reports, buffer)) :
    Watched radians metres (w ++ n) { s with
      receiver := receiver, buffer := buffer, connected := connected, error := error } := by
  constructor <;> simp only [stored_append, drawn_append, hstored, hdrawn, List.append_nil]
  case decoded => exact hdecoded
  case reading => exact hreading
  case count => exact hs.count
  case latest => exact hs.latest
  case fetched => exact hs.fetched
  case drawnAt => exact hs.drawnAt
  case increasing => exact hs.increasing
  case below => exact hs.below
  case last => exact hs.last
  case within => exact hs.within
  case plot => exact hs.plot

theorem Watched.outside {w : List (Note ρ μ)} {s : Viewer ρ μ} (hs : Watched radians metres w s)
    {receiver : ReceiverPc ρ μ} (connected : Bool) (error : String)
    (hbefore : s.receiver.pending = []) (hafter : receiver.pending = [])
    (hreads : receiver.reads = false) :
    Watched radians metres (w ++ []) { s with
      receiver := receiver, connected := connected, error := error } := by
  refine hs.receiver connected error rfl rfl ?_ fun h => absurd (hreads.symm.trans h) (by decide)
  rw [List.append_nil, hafter, ← hs.decoded, hbefore]

theorem receive_watched {w : List (Note ρ μ)} {s t : Viewer ρ μ} {outcome : Except String Bytes}
    (hs : Watched radians metres w s)
    (h : s.step radians metres (.receive outcome) = some t) :
    Watched radians metres (w ++ s.note (.receive outcome)) t := by
  rcases hr : s.receiver with _ | _ | _ | frames | _ | _ | _
  case session =>
    rcases frames with _ | ⟨frame, frames⟩
    case cons => cases outcome <;> simp [step, hr] at h
    rcases outcome with what | chunk
    · simp only [step, hr, Option.some.injEq] at h
      subst h
      exact hs.outside _ _ (by simp [hr]) rfl rfl
    by_cases hempty : chunk.length = 0
    · simp only [step, hr, hempty, if_true, Option.some.injEq] at h
      subst h
      simp only [note, hempty, if_true]
      exact hs.outside _ _ (by simp [hr]) rfl rfl
    · simp only [step, hr, hempty, if_false, feed_eq, Option.map_eq_some_iff] at h
      obtain ⟨⟨frames, rest⟩, hdrain, rfl⟩ := h
      obtain ⟨past, chunks, reports, hsessions, hfeed⟩ := hs.reading (by simp [hr])
      have hnext : feedAll (decodeAll radians metres) [] (chunks ++ [chunk]) =
          some (reports ++ [frames], rest) := by
        rw [feedAll_concat hfeed, hdrain, Option.map_some]
      have harrive : sessions (w ++ [.received chunk]) = past ++ [chunks ++ [chunk]] := by
        rw [sessions_received, hsessions, arrive_concat]
      simp only [note, hempty, if_false]
      refine hs.receiver _ _ rfl rfl ?_ fun _ => ⟨past, _, _, harrive, hnext⟩
      have hdecoded := hs.decoded
      rw [hsessions] at hdecoded
      rw [harrive]
      simp only [hr, ReceiverPc.pending, List.append_nil, List.flatMap_append,
        List.flatMap_singleton, sessionFrames_eq hfeed] at hdecoded
      simp only [ReceiverPc.pending, List.flatMap_append, List.flatMap_singleton,
        sessionFrames_eq hnext, List.flatten_append, List.flatten_singleton, hdecoded,
        List.append_assoc]
  all_goals cases outcome <;> simp [step, hr] at h

theorem store_watched {w : List (Note ρ μ)} {s t : Viewer ρ μ}
    (hs : Watched radians metres w s) (h : s.step radians metres .store = some t) :
    Watched radians metres (w ++ s.note .store) t := by
  rcases hr : s.receiver with _ | _ | _ | frames | _ | _ | _
  case session =>
    rcases frames with _ | ⟨frame, frames⟩
    · simp [step, hr] at h
    simp only [step, hr, Option.some.injEq] at h
    subst h
    have hdrawn : drawn [Note.stored frame] = [] := rfl
    have hstored : stored [Note.stored frame] = [frame] := rfl
    have hlength : s.lastFrameIdx.toNat ≤ (stored w).length := by
      have := hs.lastFrameIdx_le
      have := hs.count
      omega
    simp only [note, hr]
    constructor <;> simp only [stored_append, drawn_append, hstored, hdrawn, List.append_nil]
    case decoded =>
      rw [sessions_stored, ← hs.decoded, hr]
      simp
    case reading =>
      rw [sessions_stored]
      exact fun _ => hs.reading (by simp [hr])
    case count => rw [hs.count, List.length_append, List.length_singleton]
    case latest => simp
    case fetched =>
      intro points count hw
      obtain ⟨hlast, hcount, hpoints⟩ := hs.fetched points count hw
      refine ⟨hlast, by rw [List.length_append]; omega, ?_⟩
      rw [List.take_append_of_le_length hcount]
      exact hpoints
    case drawnAt =>
      intro d hd
      obtain ⟨hpos, hat, hpoints⟩ := hs.drawnAt d hd
      obtain ⟨hlt, -⟩ := List.getElem?_eq_some_iff.mp hat
      exact ⟨hpos, by rw [List.getElem?_append_left hlt, hat], hpoints⟩
    case increasing => exact hs.increasing
    case below => exact hs.below
    case last => exact hs.last
    case within =>
      rw [List.take_append_of_le_length hlength]
      exact hs.within
    case plot => exact hs.plot
  all_goals simp [step, hr] at h

theorem Watched.window {w : List (Note ρ μ)} {s : Viewer ρ μ} (hs : Watched radians metres w s)
    {window : WindowPc ρ μ} (status : Status)
    (hfetched : ∀ points count, window = .fetched points count → s.lastFrameIdx ≤ count ∧
      count ≤ (stored w).length ∧ points = ((stored w).take count).getLast?.getD []) :
    Watched radians metres (w ++ []) { s with window := window, status := status } := by
  rw [List.append_nil]
  exact { hs with fetched := hfetched }

theorem Watched.draw {w : List (Note ρ μ)} {s : Viewer ρ μ} {points : List (ρ × μ)} {count : ℕ}
    (hs : Watched radians metres w s) (hw : s.window = .fetched points count)
    (hdraws : s.Draws points count) :
    Watched radians metres (w ++ [.drawn count points]) { s with
      lastFrameIdx := count
      plot := points
      status := .frame count points.length
      window := .idle } := by
  obtain ⟨hlast, hcount, hpoints⟩ := hs.fetched points count hw
  obtain ⟨-, hnew, hsome⟩ := hdraws
  have hnonempty : points ≠ [] := by rintro rfl; cases hsome
  have hpos : 0 < count := by
    by_contra hzero
    obtain rfl : count = 0 := by omega
    exact hnonempty (by simpa using hpoints)
  have hlater : s.lastFrameIdx < count := by omega
  have hat : (stored w)[count - 1]? = some points := by
    rw [List.getLast?_take, if_neg (by omega)] at hpoints
    have hlt : count - 1 < (stored w).length := by omega
    rw [List.getElem?_eq_getElem hlt] at hpoints ⊢
    simpa using hpoints.symm
  have hstored : stored [Note.drawn count points] = [] := rfl
  have hdrawn : drawn [Note.drawn count points] = [(count, points)] := rfl
  constructor <;> simp only [stored_append, drawn_append, hstored, hdrawn, List.append_nil]
  case decoded => rw [sessions_drawn]; exact hs.decoded
  case reading => rw [sessions_drawn]; exact hs.reading
  case count => exact hs.count
  case latest => exact hs.latest
  case fetched => simp
  case drawnAt =>
    intro d hd
    rcases List.mem_append.mp hd with hd | hd
    · exact hs.drawnAt d hd
    · obtain rfl := List.mem_singleton.mp hd
      exact ⟨hpos, hat, hnonempty⟩
  case increasing =>
    rw [List.map_append, List.pairwise_append]
    refine ⟨hs.increasing, List.pairwise_singleton _ _, ?_⟩
    rintro i hi j hj
    obtain ⟨d, hd, rfl⟩ := List.mem_map.mp hi
    have hbelow := hs.below d hd
    have hj : j = count := List.mem_singleton.mp hj
    omega
  case below =>
    intro d hd
    rcases List.mem_append.mp hd with hd | hd
    · exact (hs.below d hd).trans hlater.le
    · rw [List.mem_singleton.mp hd]
  case last => simp
  case within =>
    have hsplit : (stored w).take count = (stored w).take (count - 1) ++ [points] := by
      obtain ⟨n, rfl⟩ : ∃ n, count = n + 1 := ⟨count - 1, by omega⟩
      rw [List.take_add_one]
      exact congrArg (_ ++ Option.toList ·) hat
    rw [Int.toNat_natCast, List.map_append, hsplit]
    refine List.Sublist.append (hs.within.trans ?_) (List.Sublist.refl _)
    exact (List.take_prefix_take_left (by omega)).sublist
  case plot => simp

theorem check_watched {w : List (Note ρ μ)} {s t : Viewer ρ μ}
    (hs : Watched radians metres w s) (h : s.step radians metres .check = some t) :
    Watched radians metres (w ++ s.note .check) t := by
  rcases hw : s.window with _ | ⟨points, count⟩ | _
  case fetched =>
    simp only [step, hw, Option.some.injEq] at h
    by_cases hdraws : s.Draws points count
    · rw [if_neg (not_not.mpr hdraws.1), if_pos hdraws] at h
      simp only [note, hw, if_pos hdraws, ← h]
      exact hs.draw hw hdraws
    · simp only [note, hw, if_neg hdraws, ← h]
      split_ifs <;> exact hs.window _ (by simp)
  all_goals simp [step, hw] at h

theorem step_watched {w : List (Note ρ μ)} {s t : Viewer ρ μ} {a : Action}
    (hs : Watched radians metres w s) (h : s.step radians metres a = some t) :
    Watched radians metres (w ++ s.note a) t := by
  cases a with
  | receive outcome => exact receive_watched hs h
  | store => exact store_watched hs h
  | check => exact check_watched hs h
  | clearError =>
    cases hr : s.receiver <;> simp only [step, hr, reduceCtorEq, Option.some.injEq] at h
    subst h
    exact hs.outside _ _ (by simp [hr]) rfl rfl
  | connect failure =>
    cases failure <;> cases hr : s.receiver <;>
      simp only [step, hr, reduceCtorEq, Option.some.injEq] at h <;> subst h
    · refine hs.receiver _ _ rfl rfl ?_ fun _ => ⟨sessions w, [], [], by simp [note], rfl⟩
      have hdecoded := hs.decoded
      simp [note, sessionFrames, feedAll, hr] at hdecoded ⊢
      exact hdecoded
    · exact hs.outside _ _ (by simp [hr]) rfl rfl
  | setConnected =>
    cases hr : s.receiver <;> simp only [step, hr, reduceCtorEq, Option.some.injEq] at h
    subst h
    have hdecoded := hs.decoded
    have hreading := hs.reading (by simp [hr])
    refine hs.receiver _ _ rfl rfl ?_ fun _ => ?_
    · simpa [hr, note] using hdecoded
    · simpa [note] using hreading
  | clearConnected | setError | sleep =>
    cases hr : s.receiver <;> simp only [step, hr, reduceCtorEq, Option.some.injEq] at h
    subst h
    exact hs.outside _ _ (by simp [hr]) rfl rfl
  | fetch =>
    cases hw : s.window <;> simp only [step, hw, reduceCtorEq, Option.some.injEq] at h
    subst h
    refine hs.window _ ?_
    rintro points count hfetched
    obtain ⟨rfl, rfl⟩ := WindowPc.fetched.inj hfetched
    refine ⟨hs.lastFrameIdx_le, hs.count.le, ?_⟩
    rw [hs.count, List.take_length]
    exact hs.latest
  | showError =>
    cases hw : s.window <;> simp only [step, hw, reduceCtorEq, Option.some.injEq] at h
    subst h
    exact hs.window _ (by simp)

theorem exec_watched {as : List Action} {s : Viewer ρ μ}
    (h : exec (step radians metres) {} as = some s) :
    Watched radians metres (notes radians metres as) s := by
  refine exec_induction (P := fun as s => Watched radians metres (notes radians metres as) s)
    new_watched ?_ h
  intro as a s t has hs ht
  rw [notes, trace_concat has ht]
  exact step_watched hs ht

/-- A waiting receiver takes every chunk: the decoder always comes back. -/
theorem receive_isSome {s : Viewer ρ μ} (hr : s.receiver = .session []) (chunk : Bytes) :
    (s.step radians metres (.receive (.ok chunk))).isSome := by
  simp only [step, hr]
  split_ifs with hempty
  · rfl
  · obtain ⟨tail, hleads, hstop⟩ := leads_end (feed s.buffer chunk)
    obtain ⟨frames, hframes⟩ := decodeAll_leads radians metres hleads hstop
    rw [hframes]
    rfl

/-- What the window draws, over the sessions, is what the decoder made of the bytes received, in
its order: a frame is stored for every one decoded, and of these the window draws some, each one
once, under its number, and none that is empty. -/
theorem window_shows_decoded {as : List Action} {s : Viewer ρ μ}
    (h : exec (step radians metres) {} as = some s) :
    stored (notes radians metres as) ++ s.receiver.pending =
        (sessions (notes radians metres as)).flatMap (sessionFrames radians metres) ∧
      (∀ d ∈ drawn (notes radians metres as), 0 < d.1 ∧
        (stored (notes radians metres as))[d.1 - 1]? = some d.2 ∧ d.2 ≠ []) ∧
      ((drawn (notes radians metres as)).map Prod.fst).Pairwise (· < ·) ∧
      ((drawn (notes radians metres as)).map Prod.snd).Sublist (stored (notes radians metres as)) ∧
      s.plot = ((drawn (notes radians metres as)).getLast?.map Prod.snd).getD [] ∧
      (s.receiver = .session [] → ∀ chunk,
        (s.step radians metres (.receive (.ok chunk))).isSome) := by
  have hs := exec_watched h
  exact ⟨hs.decoded, hs.drawnAt, hs.increasing, hs.within.trans (List.take_sublist _ _), hs.plot,
    receive_isSome⟩

/-- Between its two steps the window waits, whatever the receiver does. -/
theorem step_fetched {s t : Viewer ρ μ} {a : Action} {points : List (ρ × μ)} {count : ℕ}
    (hw : s.window = .fetched points count) (ha : a ≠ .check)
    (h : s.step radians metres a = some t) :
    t.window = .fetched points count ∧ t.lastFrameIdx = s.lastFrameIdx ∧ t.plot = s.plot := by
  cases a with
  | check => exact absurd rfl ha
  | fetch | showError => simp [step, hw] at h
  | clearError | setConnected | clearConnected | setError | sleep =>
    cases hr : s.receiver <;> simp only [step, hr, reduceCtorEq, Option.some.injEq] at h
    subst h
    exact ⟨hw, rfl, rfl⟩
  | store =>
    rcases hr : s.receiver with _ | _ | _ | frames | _ | _ | _
    case session =>
      cases frames <;> simp only [step, hr, reduceCtorEq, Option.some.injEq] at h
      subst h
      exact ⟨hw, rfl, rfl⟩
    all_goals simp [step, hr] at h
  | connect failure =>
    cases failure <;> cases hr : s.receiver <;>
      simp only [step, hr, reduceCtorEq, Option.some.injEq] at h <;> subst h <;>
      exact ⟨hw, rfl, rfl⟩
  | receive outcome =>
    rcases hr : s.receiver with _ | _ | _ | frames | _ | _ | _
    case session =>
      rcases frames with _ | ⟨frame, frames⟩
      case cons => cases outcome <;> simp [step, hr] at h
      rcases outcome with what | chunk
      · obtain rfl : _ = t := by simpa [step, hr] using h
        exact ⟨hw, rfl, rfl⟩
      simp only [step, hr] at h
      split_ifs at h
      · obtain rfl := Option.some.inj h
        exact ⟨hw, rfl, rfl⟩
      · obtain ⟨r, -, rfl⟩ := Option.map_eq_some_iff.mp h
        exact ⟨hw, rfl, rfl⟩
    all_goals cases outcome <;> simp [step, hr] at h

theorem Watched.plot_eq {w : List (Note ρ μ)} {s : Viewer ρ μ} (hs : Watched radians metres w s)
    (hlast : (s.frameCount : ℤ) = s.lastFrameIdx) : s.plot = s.latest := by
  have hidx := hs.last
  rcases hdrawn : (drawn w).getLast? with _ | d
  · simp only [hdrawn, Option.map_none, Option.getD_none] at hidx
    omega
  · simp only [hdrawn, Option.map_some, Option.getD_some] at hidx
    obtain ⟨hpos, hat, -⟩ := hs.drawnAt d (List.mem_of_getLast? hdrawn)
    have hcount : d.1 - 1 = (stored w).length - 1 := by
      have := hs.count
      omega
    rw [hs.plot, hs.latest, hdrawn, List.getLast?_eq_getElem?, ← hcount, hat]
    rfl

/-- An update of the window draws the frame that was the latest when it began, whatever arrives in
the meantime, or leaves it on the plot. -/
theorem window_keeps_up {as bs : List Action} {s t u : Viewer ρ μ}
    (h : exec (step radians metres) {} as = some s) (hidle : s.window = .idle)
    (hlatest : s.latest ≠ []) (hreceiver : Action.check ∉ bs)
    (ht : exec (step radians metres) s (.fetch :: bs) = some t) (hconnected : t.connected = true)
    (hu : t.step radians metres .check = some u) :
    u.plot = s.latest ∧ u.lastFrameIdx = s.frameCount ∧ u.window = .idle := by
  obtain ⟨v, hv, ht⟩ := exec_cons.mp ht
  obtain rfl : { s with window := .fetched s.latest s.frameCount } = v := by
    simpa [step, hidle] using hv
  have hwait : t.window = .fetched s.latest s.frameCount ∧ t.lastFrameIdx = s.lastFrameIdx ∧
      t.plot = s.plot := by
    refine @exec_invariant_along _ _ (fun _ a => a ≠ .check) (step radians metres)
      (fun v => v.window = .fetched s.latest s.frameCount ∧ v.lastFrameIdx = s.lastFrameIdx ∧
        v.plot = s.plot) ?_ _ _ bs (by exact ⟨rfl, rfl, rfl⟩) (along_of_forall ?_) ht
    · rintro v a t ⟨hw, hidx, hplot⟩ ha hstep
      obtain ⟨hw', hidx', hplot'⟩ := step_fetched hw ha hstep
      exact ⟨hw', hidx'.trans hidx, hplot'.trans hplot⟩
    · rintro a ha rfl
      exact hreceiver ha
  obtain ⟨hw, hidx, hplot⟩ := hwait
  have hnonempty : s.latest.isEmpty = false := by simpa using hlatest
  simp only [step, hw, hconnected, Option.some.injEq] at hu
  by_cases hnew : (s.frameCount : ℤ) = t.lastFrameIdx
  · have hdraws : ¬ t.Draws s.latest s.frameCount := fun hd => hd.2.1 hnew
    rw [if_neg (by simp), if_neg hdraws] at hu
    obtain rfl := hu
    exact ⟨hplot.trans ((exec_watched h).plot_eq (hnew.trans hidx)), hnew.symm, rfl⟩
  · have hdraws : t.Draws s.latest s.frameCount := ⟨hconnected, hnew, hnonempty⟩
    rw [if_neg (by simp), if_pos hdraws] at hu
    obtain rfl := hu
    exact ⟨rfl, rfl, rfl⟩

end Threads

def nextPacket : Bytes := encode ⟨2, 0, [⟨0, 0x447A0000, 15⟩]⟩

/-- Two sessions. In the first one two packets and the start of a third arrive in three chunks; the
window draws the first frame, and not the second. In the second session a packet arrives whole. -/
theorem window_shows_decoded_sessions :
    let as : List Action := [.clearError, .connect none, .setConnected,
      .receive (.ok (plainPacket.take 20)), .receive (.ok (plainPacket.drop 20 ++ plainPacket)),
      .store, .fetch, .check, .fetch, .store, .check, .receive (.ok (nextPacket.take 10)),
      .receive (.error "reset"), .clearConnected, .setError, .sleep, .clearError, .connect none,
      .setConnected, .receive (.ok nextPacket), .store, .fetch, .check]
    let far : List (FloatBits × FloatBits) := [(0x42B40000, 0x447A0000)]
    let ahead : List (FloatBits × FloatBits) := [(0, 0x447A0000)]
    ∃ s : Viewer FloatBits FloatBits, exec (step id id) {} as = some s ∧
      drawn (notes id id as) = [(1, far), (3, ahead)] ∧ s.plot = ahead ∧
      [far, far, ahead] = (sessions (notes id id as)).flatMap (sessionFrames id id) := by
  intro as far ahead
  have hrun : (exec (step id id) ({} : Viewer FloatBits FloatBits) as).map Viewer.receiver =
      some (.session []) := by decide +kernel
  obtain ⟨s, hs, hreceiver⟩ := Option.map_eq_some_iff.mp hrun
  have hdrawn : drawn (notes id id as) = [(1, far), (3, ahead)] := by decide +kernel
  have hstored : stored (notes id id as) = [far, far, ahead] := by decide +kernel
  obtain ⟨hdecoded, -, -, -, hplot, -⟩ := window_shows_decoded hs
  rw [hdrawn] at hplot
  rw [hstored, hreceiver] at hdecoded
  exact ⟨s, hs, hdrawn, hplot, hdecoded⟩

/-- Two packets arrive; the update begins after the first is stored and ends after the second. -/
theorem window_keeps_up_single :
    let as : List Action := [.clearError, .connect none, .setConnected,
      .receive (.ok (plainPacket ++ plainPacket)), .store]
    ∃ s t u : Viewer FloatBits FloatBits, exec (step id id) {} as = some s ∧
      exec (step id id) s [.fetch, .store] = some t ∧ t.step id id .check = some u ∧
      t.frameCount = 2 ∧ u.lastFrameIdx = 1 ∧ u.plot = [(0x42B40000, 0x447A0000)] := by
  intro as
  have hrun : (exec (step id id) ({} : Viewer FloatBits FloatBits) as).map
      (fun s => (s.window, s.latest, s.frameCount, s.connected, s.receiver)) =
      some (.idle, [(0x42B40000, 0x447A0000)], 1, true,
        .session [[(0x42B40000, 0x447A0000)]]) := by decide +kernel
  obtain ⟨s, hs, hlast⟩ := Option.map_eq_some_iff.mp hrun
  simp only [Prod.mk.injEq] at hlast
  obtain ⟨hidle, hlatest, hcount, hconnected, hreceiver⟩ := hlast
  have hstore : (exec (step id id) s [.fetch, .store]).map
      (fun t => (t.window, t.connected, t.frameCount)) =
      some (.fetched s.latest 1, true, 2) := by
    simp [exec, step, hidle, hreceiver, hcount, hconnected]
  obtain ⟨t, ht, hlast⟩ := Option.map_eq_some_iff.mp hstore
  simp only [Prod.mk.injEq] at hlast
  obtain ⟨hwindow, hconnected, htwo⟩ := hlast
  obtain ⟨u, hu⟩ : ∃ u, t.step id id .check = some u := by simp [step, hwindow]
  obtain ⟨hplot, hidx, -⟩ := window_keeps_up hs hidle (by rw [hlatest]; exact List.cons_ne_nil _ _)
    (by simp) ht hconnected hu
  exact ⟨s, t, u, hs, ht, hu, htwo, by rw [hidx, hcount]; rfl, by rw [hplot, hlatest]⟩

end Viewer

end AebNode.LidarViewer
