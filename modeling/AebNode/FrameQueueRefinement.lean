import AebNode.FrameQueue
import AebNode.Machine

/-! The recycling queue refines the bounded drop-oldest list: whatever the pool holds and
whatever frame object the caller hands in, the observable results are those of the list. -/
namespace AebNode.FrameQueue
open Machine

variable {α : Type*}

/-- A call of one of the three methods; `pop` carries the frame the caller passes. -/
inductive Op (α : Type*)
  | push (frame : ScanFrame α)
  | pop (out : ScanFrame α)
  | clear
  deriving DecidableEq, Repr

inductive Result (α : Type*)
  | pushed (evicted : ℕ)
  | popped (dequeued : Bool) (out : ScanFrame α)
  | cleared
  deriving DecidableEq, Repr

def step (q : FrameQueue α) : Op α → FrameQueue α × Result α
  | .push frame => ((q.push frame).1, .pushed (q.push frame).2)
  | .pop out => ((q.pop out).1, .popped (q.pop out).2.1 (q.pop out).2.2)
  | .clear => (q.clear, .cleared)

/-- The same calls on a plain list of at most `capacity` frames. -/
def fifoStep (capacity : ℕ) (xs : List (ScanFrame α)) : Op α → List (ScanFrame α) × Result α
  | .push frame =>
    ((BoundedFifo.push capacity xs frame).1, .pushed (BoundedFifo.push capacity xs frame).2)
  | .pop out =>
    match xs with
    | [] => ([], .popped false out)
    | front :: rest => (rest, .popped true front)
  | .clear => ([], .cleared)

/-- Lifetime totals of a queue; `cleared` counts the frames `clear` removed. -/
structure Account where
  pushed : ℕ := 0
  popped : ℕ := 0
  evicted : ℕ := 0
  cleared : ℕ := 0
  deriving DecidableEq, Repr

def Account.note (a : Account) (sizeBefore : ℕ) : Result α → Account
  | .pushed evicted => { a with pushed := a.pushed + 1, evicted := a.evicted + evicted }
  | .popped dequeued _ => if dequeued then { a with popped := a.popped + 1 } else a
  | .cleared => { a with cleared := a.cleared + sizeBefore }

def accountStep (s : FrameQueue α × Account) (op : Op α) : (FrameQueue α × Account) × Result α :=
  let r := step s.1 op
  ((r.1, s.2.note s.1.size r.2), r.2)

def Account.Balanced (a : Account) (size : ℕ) : Prop :=
  a.pushed = a.popped + a.evicted + a.cleared + size

def pushedFrames (ops : List (Op α)) : List (ScanFrame α) :=
  ops.filterMap fun op => match op with
    | .push frame => some frame
    | _ => none

def poppedFrames (results : List (Result α)) : List (ScanFrame α) :=
  results.filterMap fun r => match r with
    | .popped true frame => some frame
    | _ => none

/-- What the mutex protects between two calls. -/
structure WellFormed (q : FrameQueue α) : Prop where
  capacity_pos : 0 < q.capacity
  size_le : q.size ≤ q.capacity

theorem new_capacity (capacity : ℕ) : (new capacity : FrameQueue α).capacity = max 1 capacity := by
  unfold new
  dsimp only
  split_ifs <;> omega

theorem new_wellFormed (capacity : ℕ) : (new capacity : FrameQueue α).WellFormed where
  capacity_pos := by rw [new_capacity]; omega
  size_le := Nat.zero_le _

theorem step_capacity (q : FrameQueue α) (op : Op α) : (step q op).1.capacity = q.capacity := by
  cases op with
  | push frame => exact push_capacity q frame
  | pop out => exact pop_capacity q out
  | clear => exact clear_capacity q

/-- Simulation step: a call does to the queue and to its caller what it does to the list. -/
theorem step_refines (q : FrameQueue α) (hcap : 0 < q.capacity) (op : Op α) :
    fifoStep q.capacity q.queue op = ((step q op).1.queue, (step q op).2) := by
  cases op with
  | push frame =>
    simp only [fifoStep, step, push_queue q hcap, push_evicted q hcap]
  | pop out =>
    cases hq : q.queue with
    | nil => simp only [fifoStep, step, pop_nil hq, hq]
    | cons front rest => simp only [fifoStep, step, pop_cons hq]
  | clear => rfl

theorem push_wellFormed {q : FrameQueue α} (h : q.WellFormed) (frame : ScanFrame α) :
    (q.push frame).1.WellFormed where
  capacity_pos := by rw [push_capacity]; exact h.capacity_pos
  size_le := by
    rw [push_capacity, size, push_queue q h.capacity_pos]
    exact BoundedFifo.push_length_le h.capacity_pos _ _

theorem pop_wellFormed {q : FrameQueue α} (h : q.WellFormed) (out : ScanFrame α) :
    (q.pop out).1.WellFormed where
  capacity_pos := by rw [pop_capacity]; exact h.capacity_pos
  size_le := by
    have hs := h.size_le
    rw [pop_capacity]
    cases hq : q.queue with
    | nil => rwa [pop_nil hq]
    | cons front rest =>
      rw [size, hq, List.length_cons] at hs
      rw [pop_cons hq, size]
      exact (Nat.le_succ _).trans hs

theorem step_wellFormed {q : FrameQueue α} (h : q.WellFormed) (op : Op α) :
    (step q op).1.WellFormed := by
  cases op with
  | push frame => exact push_wellFormed h frame
  | pop out => exact pop_wellFormed h out
  | clear => exact ⟨by rw [step_capacity]; exact h.capacity_pos, Nat.zero_le _⟩

/-- A call moves every frame it removes to exactly one column of the account. -/
theorem accountStep_balanced {s : FrameQueue α × Account} (hcap : 0 < s.1.capacity)
    (h : s.2.Balanced s.1.size) (op : Op α) :
    (accountStep s op).1.2.Balanced (accountStep s op).1.1.size := by
  unfold Account.Balanced at *
  cases op with
  | push frame =>
    have hc := BoundedFifo.push_conserves hcap s.1.queue frame
    rw [← push_queue s.1 hcap, ← push_evicted s.1 hcap] at hc
    simp only [accountStep, step, Account.note, size] at *
    omega
  | pop out =>
    cases hq : s.1.queue with
    | nil => simpa [accountStep, step, pop_nil hq, Account.note] using h
    | cons front rest =>
      simp only [size, hq, List.length_cons] at h
      simp only [accountStep, step, pop_cons hq, Account.note, ↓reduceIte, size]
      omega
  | clear =>
    simp only [accountStep, step, Account.note, size, clear_queue, List.length_nil] at *
    omega

theorem fifo_popped_sublist (capacity : ℕ) (xs : List (ScanFrame α)) (ops : List (Op α)) :
    (poppedFrames (run (fifoStep capacity) xs ops).2).Sublist (xs ++ pushedFrames ops) := by
  induction ops generalizing xs with
  | nil => simp [run, poppedFrames]
  | cons op ops ih =>
    cases op with
    | push frame =>
      have hs := (BoundedFifo.push_sublist capacity xs frame).append_right (pushedFrames ops)
      rw [List.append_assoc] at hs
      exact (ih _).trans hs
    | pop out =>
      cases xs with
      | nil => exact ih []
      | cons front rest => exact (ih rest).cons_cons front
    | clear => exact (ih []).trans (List.sublist_append_right xs _)

theorem fifo_evicted_le_one {capacity : ℕ} (hcap : 0 < capacity) {xs : List (ScanFrame α)}
    (hxs : xs.length ≤ capacity) (ops : List (Op α)) :
    ∀ k, Result.pushed k ∈ (run (fifoStep capacity) xs ops).2 → k ≤ 1 := by
  induction ops generalizing xs with
  | nil => simp [run]
  | cons op ops ih =>
    intro k hk
    simp only [run, List.mem_cons] at hk
    cases op with
    | push frame =>
      rcases hk with hk | hk
      · obtain rfl := Result.pushed.inj hk
        exact BoundedFifo.push_dropped_le_one hxs frame
      · exact ih (BoundedFifo.push_length_le hcap xs frame) k hk
    | pop out =>
      cases xs with
      | nil => exact ih hxs k (hk.resolve_left fun h => by cases h)
      | cons front rest =>
        exact ih ((Nat.le_succ _).trans hxs) k (hk.resolve_left fun h => by cases h)
    | clear => exact ih (Nat.zero_le _) k (hk.resolve_left fun h => by cases h)

/-- Over every sequence of calls, in whatever order the mutex serialises them: the results are
those of the bounded list, no push evicts more than one frame, the frames handed out are a
subsequence of the frames pushed, and every frame pushed is accounted for. -/
theorem queue_refines_fifo (capacity : ℕ) (ops : List (Op α)) :
    let r := run accountStep ((new capacity : FrameQueue α), ({} : Account)) ops
    let spec := run (fifoStep (max 1 capacity)) ([] : List (ScanFrame α)) ops
    r.2 = spec.2 ∧ r.1.1.queue = spec.1 ∧
      (∀ k, Result.pushed k ∈ r.2 → k ≤ 1) ∧
      (poppedFrames r.2).Sublist (pushedFrames ops) ∧
      r.1.2.pushed = r.1.2.popped + r.1.2.evicted + r.1.2.cleared + r.1.1.size ∧
      r.1.1.size ≤ max 1 capacity := by
  intro r spec
  obtain ⟨⟨hwf, hcap, hbal⟩, hrun⟩ := @run_refines _ _ _ _ (accountStep (α := α))
    (fifoStep (max 1 capacity)) (fun s => s.1.queue)
    (fun s => s.1.WellFormed ∧ s.1.capacity = max 1 capacity ∧ s.2.Balanced s.1.size)
    (fun s op h => ⟨step_wellFormed h.1 op, (step_capacity s.1 op).trans h.2.1,
      accountStep_balanced h.1.capacity_pos h.2.2 op⟩)
    (fun s op h => by
      rw [← h.2.1]
      exact step_refines s.1 h.1.capacity_pos op)
    (new capacity, {}) ⟨new_wellFormed capacity, new_capacity capacity, rfl⟩ ops
  have hout : r.2 = spec.2 := (congrArg Prod.snd hrun).symm
  refine ⟨hout, (congrArg Prod.fst hrun).symm, ?_, ?_, hbal, hcap ▸ hwf.size_le⟩
  · rw [hout]
    exact fifo_evicted_le_one (by omega) (Nat.zero_le _) ops
  · rw [hout]
    exact fifo_popped_sublist (max 1 capacity) [] ops

end AebNode.FrameQueue
