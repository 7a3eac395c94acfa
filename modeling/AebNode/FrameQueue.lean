import AebNode.BoundedFifo
import AebNode.Types

/-! The producer hand-off queue: a deque of frames, and a pool of recycled frame objects that
keep their old sequence number and timestamp. Every method runs under the queue's mutex, so
a run is a sequence of whole operations, whichever threads issue them. -/
namespace AebNode

structure FrameQueue (α : Type*) where
  queue : List (ScanFrame α)
  pool : List (ScanFrame α)
  capacity : ℕ
  deriving DecidableEq, Repr

namespace FrameQueue

variable {α : Type*}

def kPoolSlack : ℕ := 2

def new (capacity : ℕ) : FrameQueue α := ⟨[], [], if capacity = 0 then 1 else capacity⟩

/-- A full pool lets the frame go; otherwise its points are cleared and the rest is kept. -/
def recycleLocked (q : FrameQueue α) (frame : ScanFrame α) : FrameQueue α :=
  if q.capacity + kPoolSlack ≤ q.pool.length then q
  else { q with pool := q.pool ++ [{ frame with points := [] }] }

def acquireLocked (q : FrameQueue α) : ScanFrame α × FrameQueue α :=
  match q.pool.getLast? with
  | none => ({}, q)
  | some frame => (frame, { q with pool := q.pool.dropLast })

/-- The eviction loop of `push`, run on the frames of the queue: recycle and remove the front
while the capacity is reached, counting. -/
def evictLoop : List (ScanFrame α) → FrameQueue α → FrameQueue α × ℕ
  | [], q => ({ q with queue := [] }, 0)
  | front :: rest, q =>
    if q.capacity ≤ rest.length + 1 then
      let r := evictLoop rest (q.recycleLocked front)
      (r.1, r.2 + 1)
    else ({ q with queue := front :: rest }, 0)

def push (q : FrameQueue α) (frame : ScanFrame α) : FrameQueue α × ℕ :=
  let evicted := evictLoop q.queue q
  let acquired := acquireLocked evicted.1
  let slot := { acquired.1 with sequence := frame.sequence }
  let slot := { slot with timestampUs := frame.timestampUs }
  let slot := { slot with points := frame.points }
  ({ acquired.2 with queue := acquired.2.queue ++ [slot] }, evicted.2)

/-- What `push` leaves behind when copying the points or growing the deque throws: room has
been made and the acquired frame object is gone. -/
def pushThrows (q : FrameQueue α) : FrameQueue α := (acquireLocked (evictLoop q.queue q).1).2

/-- The result is whether a frame was dequeued, with the caller's `out` afterwards. -/
def pop (q : FrameQueue α) (out : ScanFrame α) : FrameQueue α × Bool × ScanFrame α :=
  match q.queue with
  | [] => (q, false, out)
  | front :: rest => ({ q.recycleLocked out with queue := rest }, true, front)

def clear (q : FrameQueue α) : FrameQueue α :=
  { q.queue.foldl recycleLocked q with queue := [] }

def empty (q : FrameQueue α) : Bool := q.queue.isEmpty

def size (q : FrameQueue α) : ℕ := q.queue.length

/-! The lock-held helpers never touch the queue or its capacity. -/

@[simp] theorem recycleLocked_queue (q : FrameQueue α) (frame : ScanFrame α) :
    (q.recycleLocked frame).queue = q.queue := by
  unfold recycleLocked
  split_ifs <;> rfl

@[simp] theorem recycleLocked_capacity (q : FrameQueue α) (frame : ScanFrame α) :
    (q.recycleLocked frame).capacity = q.capacity := by
  unfold recycleLocked
  split_ifs <;> rfl

@[simp] theorem acquireLocked_queue (q : FrameQueue α) :
    (acquireLocked q).2.queue = q.queue := by
  unfold acquireLocked
  split <;> rfl

@[simp] theorem acquireLocked_capacity (q : FrameQueue α) :
    (acquireLocked q).2.capacity = q.capacity := by
  unfold acquireLocked
  split <;> rfl

theorem evictLoop_capacity (frames : List (ScanFrame α)) (q : FrameQueue α) :
    (evictLoop frames q).1.capacity = q.capacity := by
  induction frames generalizing q with
  | nil => rfl
  | cons front rest ih =>
    simp only [evictLoop]
    split_ifs
    · simp [ih]
    · rfl

/-- The eviction loop drops the excess over one less than the capacity, oldest first. -/
theorem evictLoop_queue (frames : List (ScanFrame α)) (q : FrameQueue α) (hcap : 0 < q.capacity) :
    (evictLoop frames q).1.queue = frames.drop (frames.length + 1 - q.capacity) ∧
      (evictLoop frames q).2 = frames.length + 1 - q.capacity := by
  induction frames generalizing q with
  | nil =>
    have hz : 0 + 1 - q.capacity = 0 := by omega
    simp [evictLoop, hz]
  | cons front rest ih =>
    simp only [evictLoop, List.length_cons]
    split_ifs with h
    · have hi := ih (q.recycleLocked front) (by simpa using hcap)
      rw [recycleLocked_capacity] at hi
      have hs : rest.length + 1 + 1 - q.capacity = rest.length + 1 - q.capacity + 1 := by omega
      rw [hs, List.drop_succ_cons]
      exact ⟨hi.1, congrArg (· + 1) hi.2⟩
    · have hz : rest.length + 1 + 1 - q.capacity = 0 := by omega
      simp [hz]

theorem push_capacity (q : FrameQueue α) (frame : ScanFrame α) :
    (q.push frame).1.capacity = q.capacity := by
  simp [push, evictLoop_capacity]

/-- Every field of the slot is overwritten, so the recycled contents do not show. -/
theorem push_queue (q : FrameQueue α) (hcap : 0 < q.capacity) (frame : ScanFrame α) :
    (q.push frame).1.queue = (BoundedFifo.push q.capacity q.queue frame).1 := by
  simp [push, BoundedFifo.push, (evictLoop_queue q.queue q hcap).1]

theorem push_evicted (q : FrameQueue α) (hcap : 0 < q.capacity) (frame : ScanFrame α) :
    (q.push frame).2 = (BoundedFifo.push q.capacity q.queue frame).2 :=
  (evictLoop_queue q.queue q hcap).2

theorem pushThrows_queue (q : FrameQueue α) (hcap : 0 < q.capacity) :
    (q.pushThrows).queue = q.queue.drop (q.queue.length + 1 - q.capacity) := by
  simp [pushThrows, evictLoop_queue q.queue q hcap]

theorem pushThrows_capacity (q : FrameQueue α) : (q.pushThrows).capacity = q.capacity := by
  simp [pushThrows, evictLoop_capacity]

theorem pop_nil {q : FrameQueue α} (h : q.queue = []) (out : ScanFrame α) :
    q.pop out = (q, false, out) := by
  simp [pop, h]

theorem pop_cons {q : FrameQueue α} {front : ScanFrame α} {rest : List (ScanFrame α)}
    (h : q.queue = front :: rest) (out : ScanFrame α) :
    q.pop out = ({ q.recycleLocked out with queue := rest }, true, front) := by
  simp [pop, h]

theorem pop_capacity (q : FrameQueue α) (out : ScanFrame α) :
    (q.pop out).1.capacity = q.capacity := by
  unfold pop
  split <;> simp

theorem clear_queue (q : FrameQueue α) : q.clear.queue = [] := rfl

theorem clear_capacity (q : FrameQueue α) : q.clear.capacity = q.capacity := by
  have h : ∀ (frames : List (ScanFrame α)) (q : FrameQueue α),
      (frames.foldl recycleLocked q).capacity = q.capacity := by
    intro frames
    induction frames with
    | nil => intro q; rfl
    | cons f fs ih => intro q; simp [ih]
  exact h q.queue q

end FrameQueue

end AebNode
