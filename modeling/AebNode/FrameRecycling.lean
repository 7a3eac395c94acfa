import AebNode.FrameQueueRefinement

/-! The frame objects of a queue. Eviction, `pop` and `clear` only move them between the deque
and the pool, and a push creates one only when the pool is empty, so the objects there are have
all been created by a push, and never outnumber the capacity. -/
namespace AebNode.FrameQueue
open Machine

variable {α : Type*}

/-- The frames that a call hands to `recycleLocked`, in order. -/
def recycled (q : FrameQueue α) : Op α → List (ScanFrame α)
  | .push _ => q.queue.take (evictLoop q.queue q).2
  | .pop out => if q.queue.isEmpty then [] else [out]
  | .clear => q.queue

/-- How many frames, recycled one after the other, find the pool full and are let go. -/
def discards : FrameQueue α → List (ScanFrame α) → ℕ
  | _, [] => 0
  | q, frame :: frames =>
    (if q.capacity + kPoolSlack ≤ q.pool.length then 1 else 0) +
      discards (q.recycleLocked frame) frames

def creates (q : FrameQueue α) : Op α → Bool
  | .push _ => (evictLoop q.queue q).1.pool.isEmpty
  | _ => false

/-- What became of the frame objects over the life of a queue. -/
structure Recycling where
  created : ℕ := 0
  discarded : ℕ := 0
  deriving DecidableEq, Repr

def recyclingStep (s : FrameQueue α × Recycling) (op : Op α) :
    (FrameQueue α × Recycling) × Result α :=
  let r := step s.1 op
  ((r.1,
    { created := s.2.created + (creates s.1 op).toNat
      discarded := s.2.discarded + discards s.1 (recycled s.1 op) }), r.2)

def objects (q : FrameQueue α) : ℕ := q.pool.length + q.size

theorem recycleLocked_pool {q : FrameQueue α} (h : q.pool.length < q.capacity + kPoolSlack)
    (frame : ScanFrame α) : (q.recycleLocked frame).pool.length = q.pool.length + 1 := by
  unfold recycleLocked
  rw [if_neg (by omega)]
  exact List.length_append

theorem foldl_recycleLocked {q : FrameQueue α} (frames : List (ScanFrame α))
    (h : q.pool.length + frames.length ≤ q.capacity + kPoolSlack) :
    (frames.foldl recycleLocked q).pool.length = q.pool.length + frames.length ∧
      discards q frames = 0 := by
  induction frames generalizing q with
  | nil => exact ⟨rfl, rfl⟩
  | cons frame frames ih =>
    rw [List.length_cons] at h
    have hpool := recycleLocked_pool (q := q) (by omega) frame
    obtain ⟨hlength, hdiscards⟩ := ih (q := q.recycleLocked frame) (by
      rw [hpool, recycleLocked_capacity]
      omega)
    refine ⟨?_, ?_⟩
    · rw [List.foldl_cons, hlength, hpool, List.length_cons]
      omega
    · rw [discards, if_neg (by omega), hdiscards]

theorem evictLoop_pool (frames : List (ScanFrame α)) (q : FrameQueue α) :
    (evictLoop frames q).1.pool =
      ((frames.take (evictLoop frames q).2).foldl recycleLocked q).pool := by
  induction frames generalizing q with
  | nil => rfl
  | cons front rest ih =>
    rw [evictLoop]
    split_ifs
    · exact ih (q.recycleLocked front)
    · rfl

theorem acquireLocked_pool (q : FrameQueue α) :
    (acquireLocked q).2.pool.length + 1 = q.pool.length + q.pool.isEmpty.toNat := by
  unfold acquireLocked
  cases hlast : q.pool.getLast? with
  | none =>
    obtain hempty := List.getLast?_eq_none_iff.mp hlast
    simp [hempty]
  | some frame =>
    have hne : q.pool ≠ [] := by
      rintro hempty
      simp [hempty] at hlast
    have hpos := List.length_pos_iff.mpr hne
    have hsome : q.pool.isEmpty = false := by simpa using hne
    simp only [List.length_dropLast, hsome, Bool.toNat_false]
    omega

/-- The objects of the queue are those created, and there is room for them. -/
structure Conserved (s : FrameQueue α × Recycling) : Prop where
  wellFormed : s.1.WellFormed
  objects_eq : s.1.objects = s.2.created
  created_le : s.2.created ≤ s.1.capacity
  kept : s.2.discarded = 0

theorem new_conserved (capacity : ℕ) : Conserved ((new capacity : FrameQueue α), {}) where
  wellFormed := new_wellFormed capacity
  objects_eq := rfl
  created_le := Nat.zero_le _
  kept := rfl

/-- A push moves the evicted frames to the pool and one object back. Only with an empty pool,
and then with less than a full queue, does it create one. -/
theorem push_objects {q : FrameQueue α} (h : q.WellFormed) (hroom : q.objects ≤ q.capacity)
    (frame : ScanFrame α) :
    (step q (.push frame)).1.objects = q.objects + (creates q (.push frame)).toNat ∧
      q.objects + (creates q (.push frame)).toNat ≤ q.capacity ∧
      discards q (recycled q (.push frame)) = 0 := by
  obtain ⟨hqueue, hevicted⟩ := evictLoop_queue q.queue q h.capacity_pos
  have hcap := h.capacity_pos
  have hsize := h.size_le
  rw [objects, size] at hroom
  rw [size] at hsize
  have htake : (q.queue.take (evictLoop q.queue q).2).length = (evictLoop q.queue q).2 := by
    rw [List.length_take]
    omega
  obtain ⟨hpool, hdiscards⟩ := foldl_recycleLocked (q := q)
    (q.queue.take (evictLoop q.queue q).2) (by
      rw [htake, kPoolSlack]
      omega)
  rw [← evictLoop_pool, htake] at hpool
  have hleft : (evictLoop q.queue q).1.queue.length + (evictLoop q.queue q).2 =
      q.queue.length := by
    rw [hqueue, List.length_drop]
    omega
  have hacquired := acquireLocked_pool (evictLoop q.queue q).1
  refine ⟨?_, ?_, hdiscards⟩
  · simp only [step, push, objects, size, creates, acquireLocked_queue, List.length_append,
      List.length_singleton]
    omega
  · simp only [creates, objects, size]
    cases hempty : (evictLoop q.queue q).1.pool.isEmpty with
    | false => simpa using hroom
    | true =>
      rw [List.isEmpty_iff] at hempty
      rw [hempty, List.length_nil] at hpool
      simp only [Bool.toNat_true]
      omega

theorem pop_objects {q : FrameQueue α} (hroom : q.objects ≤ q.capacity) (out : ScanFrame α) :
    (step q (.pop out)).1.objects = q.objects ∧ discards q (recycled q (.pop out)) = 0 := by
  simp only [step, recycled]
  cases hq : q.queue with
  | nil =>
    rw [pop_nil hq]
    exact ⟨rfl, rfl⟩
  | cons front rest =>
    simp only [objects, size, hq, List.length_cons] at hroom
    obtain ⟨hpool, hdiscards⟩ := foldl_recycleLocked (q := q) [out] (by
      rw [kPoolSlack, List.length_singleton]
      omega)
    rw [pop_cons hq]
    refine ⟨?_, hdiscards⟩
    simp only [List.foldl_cons, List.foldl_nil, List.length_singleton] at hpool
    simp only [objects, size, hpool, hq, List.length_cons]
    omega

theorem clear_objects {q : FrameQueue α} (hroom : q.objects ≤ q.capacity) :
    (step q .clear).1.objects = q.objects ∧ discards q (recycled q .clear) = 0 := by
  rw [objects, size] at hroom
  obtain ⟨hpool, hdiscards⟩ := foldl_recycleLocked (q := q) q.queue (by omega)
  refine ⟨?_, hdiscards⟩
  simp only [step, clear, objects, size, List.length_nil, hpool, Nat.add_zero]

/-- Step lemma: a call keeps the objects it does not create. -/
theorem recyclingStep_conserved {s : FrameQueue α × Recycling} (h : Conserved s) (op : Op α) :
    Conserved (recyclingStep s op).1 := by
  have hroom : s.1.objects ≤ s.1.capacity := h.objects_eq.trans_le h.created_le
  have hop : (step s.1 op).1.objects = s.1.objects + (creates s.1 op).toNat ∧
      s.1.objects + (creates s.1 op).toNat ≤ s.1.capacity ∧
      discards s.1 (recycled s.1 op) = 0 := by
    cases op with
    | push frame => exact push_objects h.wellFormed hroom frame
    | pop out => exact ⟨(pop_objects hroom out).1, hroom, (pop_objects hroom out).2⟩
    | clear => exact ⟨(clear_objects hroom).1, hroom, (clear_objects hroom).2⟩
  obtain ⟨hobjects, hle, hdiscards⟩ := hop
  rw [h.objects_eq] at hobjects hle
  refine ⟨step_wellFormed h.wellFormed op, hobjects, ?_, ?_⟩
  · rw [recyclingStep, step_capacity]
    exact hle
  · simp only [recyclingStep, h.kept, hdiscards]

end AebNode.FrameQueue
