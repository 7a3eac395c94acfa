import AebNode.Supervision

/-! The timed waits of the supervision: from the configured interval, through `waitFor`, to the
time that `sigtimedwait` gets. `width` is the number of bits of a `long`. -/
namespace AebNode
open Application CommandLine

structure Timespec where
  tvSec : ℤ
  tvNsec : ℤ
  deriving DecidableEq, Repr

/-- Of the waiter, what `valid` returns. -/
structure SignalWaiter where
  installed : Bool := true
  deriving DecidableEq, Repr

namespace SignalWaiter

def kNanosPerMilli : ℤ := 1000000
def kMillisPerSecond : ℤ := 1000

/-- A call made by the supervision, with what it returns. -/
inductive Call
  | sigtimedwait (ts : Timespec) (result : WaitResult)
  | isRunning (answer : Bool)
  deriving DecidableEq, Repr

/-- `static_cast<long>`, which wraps. -/
def toLong (width : ℕ) (n : ℤ) : ℤ := n.bmod (2 ^ width)

/-- The time that `waitFor` computes from its timeout in milliseconds. -/
def timespec (width : ℕ) (timeout : ℤ) : Timespec :=
  let millis := toLong width (if timeout < 0 then 0 else timeout)
  { tvSec := millis.tdiv kMillisPerSecond
    tvNsec := millis.tmod kMillisPerSecond * kNanosPerMilli }

/-- The loop of `waitFor` over what `sigtimedwait` ends in, call after call: the calls made, and
the signal returned (`some none` for zero) unless it waits on. -/
def waitLoop (ts : Timespec) : List WaitResult → List Call × Option (Option Signal)
  | [] => ([], none)
  | result :: results =>
    match result with
    | .signal .pipe | .interrupted =>
      (.sigtimedwait ts result :: (waitLoop ts results).1, (waitLoop ts results).2)
    | .signal number => ([.sigtimedwait ts result], some (some number))
    | .timedOut => ([.sigtimedwait ts result], some none)

def waitFor (signals : SignalWaiter) (width : ℕ) (timeout : ℤ) (results : List WaitResult) :
    List Call × Option (Option Signal) :=
  if signals.installed then waitLoop (timespec width timeout) results else ([], some none)

end SignalWaiter

namespace Application
open SignalWaiter

def kIdleTick : ℤ := 1000

/-- The timeout of a wait, in milliseconds; `unsigned` arithmetic wraps. -/
def tick (options : Options) : ℤ :=
  if 0 < options.healthIntervalS then ((options.healthIntervalS * 1000).toNat : ℤ) else kIdleTick

/-- The environment in one pass of the loop of `supervise`. -/
structure Round where
  results : List WaitResult
  running : Bool
  deriving DecidableEq, Repr

/-- `Application::supervise`: the calls it makes and, once it has returned, the exit code. -/
def supervise (width : ℕ) (options : Options) (signals : SignalWaiter) :
    List Round → List Call × Option ℕ
  | [] => ([], none)
  | round :: rounds =>
    match signals.waitFor width (tick options) round.results with
    | (calls, none) => (calls, none)
    | (calls, some (some _)) => (calls, some kExitSuccess)
    | (calls, some none) =>
      let checked := calls ++ [.isRunning round.running]
      if round.running then
        let rest := supervise width options signals rounds
        (checked ++ rest.1, rest.2)
      else (checked, some kExitFailure)

end Application

namespace SignalWaiter

/-! The calls are the steps of the main thread between two of its other calls. -/

/-- The step of the main thread that a call is. -/
def Call.event : Call → MainEvent
  | .sigtimedwait _ result => .wait result
  | .isRunning _ => .checkRunning

def mainSteps (options : Options) (s : Application) (calls : List Call) : Option Application :=
  calls.foldlM (fun s call => s.mainStep options call.event) s

/-- Where `supervise` has brought the main thread. -/
def supervised (s : Application) : Option ℕ → Application
  | none => s
  | some exitCode => { s with exitCode := some exitCode }.shutdown

variable {options : Options} {s : Application}

@[simp]
theorem mainSteps_nil : mainSteps options s [] = some s := rfl

@[simp]
theorem mainSteps_cons (call : Call) (calls : List Call) :
    mainSteps options s (call :: calls) =
      (s.mainStep options call.event).bind fun t => mainSteps options t calls := rfl

theorem mainSteps_append {t : Application} {calls more : List Call}
    (h : mainSteps options s calls = some t) :
    mainSteps options s (calls ++ more) = mainSteps options t more := by
  unfold mainSteps at h ⊢
  rw [List.foldlM_append, h]
  rfl

theorem waitLoop_steps (hs : s.pc = .waitSignal) (ts : Timespec) (results : List WaitResult) :
    mainSteps options s (waitLoop ts results).1 =
      some (match (waitLoop ts results).2 with
        | none => s
        | some none => { s with pc := .checkRunning }
        | some (some _) => supervised s (some kExitSuccess)) := by
  induction results with
  | nil => rfl
  | cons result results ih =>
    cases result with
    | interrupted => simp [waitLoop, Call.event, mainStep, hs, ih]
    | timedOut => simp [waitLoop, Call.event, mainStep, hs]
    | signal number =>
      cases number with
      | pipe => simp [waitLoop, Call.event, mainStep, hs, ih]
      | int | term => simp [waitLoop, Call.event, mainStep, hs, supervised]

theorem isRunning_step (hs : s.pc = .waitSignal) (answer : Bool) :
    mainSteps options { s with pc := .checkRunning } [.isRunning answer] =
      some (if s.lidar.running then s else supervised s (some kExitFailure)) := by
  cases hlidar : s.lidar.running with
  | false => simp [Call.event, mainStep, hlidar, supervised, shutdown]
  | true => simp [Call.event, mainStep, hlidar, ← hs]

/-- `supervise` takes the main thread where the steps of the state machine take it, if the lidar
answers as it stands. -/
theorem supervise_steps (width : ℕ) (hs : s.pc = .waitSignal) {signals : SignalWaiter}
    (hvalid : signals.installed = true) {rounds : List Round}
    (hrunning : ∀ round ∈ rounds, round.running = s.lidar.running) :
    mainSteps options s (supervise width options signals rounds).1 =
      some (supervised s (supervise width options signals rounds).2) := by
  induction rounds with
  | nil => rfl
  | cons round rounds ih =>
    obtain ⟨hround, hrounds⟩ := List.forall_mem_cons.mp hrunning
    have hwait := @waitLoop_steps options s hs (timespec width (tick options)) round.results
    rw [supervise, waitFor, if_pos hvalid]
    cases hresult : waitLoop (timespec width (tick options)) round.results with
    | mk calls returned =>
      rw [hresult] at hwait
      cases returned with
      | none => exact hwait
      | some signal =>
        cases signal with
        | some number => exact hwait
        | none =>
          have hcheck := (mainSteps_append hwait).trans (isRunning_step hs round.running)
          dsimp only
          rw [hround] at hcheck ⊢
          cases hlidar : s.lidar.running with
          | false => simpa [hlidar] using hcheck
          | true =>
            simp only [hlidar, if_true] at hcheck ⊢
            rw [mainSteps_append hcheck, ih hrounds]

/-! What the timeout becomes on its way. -/

/-- A number that is not negative survives the conversion to `long` exactly if it fits. -/
theorem toLong_eq_self_iff {width : ℕ} (hwidth : 0 < width) {n : ℤ} (hn : 0 ≤ n) :
    toLong width n = n ↔ n < 2 ^ (width - 1) := by
  obtain ⟨k, rfl⟩ : ∃ k, width = k + 1 := ⟨width - 1, by omega⟩
  have hpos : 0 < 2 ^ (k + 1) := Nat.two_pow_pos _
  have hhalf : ((2 ^ (k + 1) : ℕ) : ℤ) = 2 * 2 ^ k := by
    push_cast
    ring
  rw [toLong, Int.bmod_eq_iff hpos, hhalf, Nat.add_sub_cancel]
  constructor
  · rintro ⟨-, hlt, -⟩
    omega
  · intro hlt
    have hzero : (0 : ℤ) ≤ 2 ^ k := by positivity
    exact ⟨by omega, by omega, by simp⟩

theorem toLong_bounds (width : ℕ) {n : ℤ} (hn : 0 ≤ n) :
    -n ≤ toLong width n ∧ toLong width n ≤ n := by
  obtain ⟨m, rfl⟩ := Int.eq_ofNat_of_zero_le hn
  have hle : ((m % 2 ^ width : ℕ) : ℤ) ≤ m := by exact_mod_cast Nat.mod_le m (2 ^ width)
  have hrem : ((m : ℤ) % (2 ^ width : ℕ)) = ((m % 2 ^ width : ℕ) : ℤ) := (Int.natCast_mod ..).symm
  rw [toLong, Int.bmod_def, hrem]
  split_ifs <;> omega

theorem timespec_eq (width : ℕ) (timeout : ℤ) :
    timespec width timeout =
      ⟨(toLong width (max 0 timeout)).tdiv 1000,
        (toLong width (max 0 timeout)).tmod 1000 * 10 ^ 6⟩ := by
  have hmax : (if timeout < 0 then 0 else timeout) = max 0 timeout := by
    split_ifs <;> omega
  simp only [timespec, hmax, kMillisPerSecond, kNanosPerMilli]
  norm_num

theorem timespec_total (width : ℕ) (timeout : ℤ) :
    (timespec width timeout).tvSec * 10 ^ 9 + (timespec width timeout).tvNsec =
      toLong width (max 0 timeout) * 10 ^ 6 := by
  have hsplit := Int.tdiv_mul_add_tmod (toLong width (max 0 timeout)) 1000
  rw [timespec_eq]
  linarith

/-- The nanoseconds keep the sign of the milliseconds and stay below a second. -/
theorem timespec_nsec (width : ℕ) (timeout : ℤ) :
    -10 ^ 9 < (timespec width timeout).tvNsec ∧ (timespec width timeout).tvNsec < 10 ^ 9 ∧
      (0 ≤ toLong width (max 0 timeout) → 0 ≤ (timespec width timeout).tvNsec) := by
  have hlt := Int.tmod_lt_of_pos (toLong width (max 0 timeout)) (b := 1000) (by norm_num)
  have hgt := Int.lt_tmod_of_pos (toLong width (max 0 timeout)) (b := 1000) (by norm_num)
  rw [timespec_eq]
  refine ⟨by dsimp only; omega, by dsimp only; omega, fun hzero => ?_⟩
  exact mul_nonneg (Int.tmod_nonneg 1000 hzero) (by norm_num)

variable {width : ℕ}

theorem tick_eq (h : 0 < options.healthIntervalS) :
    tick options = ((options.healthIntervalS.toNat * 1000 % 2 ^ 32 : ℕ) : ℤ) := by
  rw [tick, if_pos h, UInt32.toNat_mul]
  rfl

theorem tick_bounds (options : Options) : 0 ≤ tick options ∧ tick options < 2 ^ 32 := by
  unfold tick
  split_ifs
  · have hlt := (options.healthIntervalS * 1000).toNat_lt
    omega
  · rw [kIdleTick]
    norm_num

theorem waitLoop_passes {ts passed : Timespec} {result : WaitResult} {results : List WaitResult}
    (h : .sigtimedwait passed result ∈ (waitLoop ts results).1) : passed = ts := by
  induction results with
  | nil => cases h
  | cons first results ih =>
    have hfirst : .sigtimedwait passed result = Call.sigtimedwait ts first → passed = ts :=
      fun heq => (Call.sigtimedwait.inj heq).1
    unfold waitLoop at h
    split at h
    · exact (List.mem_cons.mp h).elim hfirst ih
    · exact (List.mem_cons.mp h).elim hfirst ih
    · exact hfirst (List.mem_singleton.mp h)
    · exact hfirst (List.mem_singleton.mp h)

theorem waitFor_passes {signals : SignalWaiter} {timeout : ℤ} {passed : Timespec}
    {result : WaitResult} {results : List WaitResult}
    (h : .sigtimedwait passed result ∈ (signals.waitFor width timeout results).1) :
    passed = timespec width timeout := by
  rw [waitFor] at h
  split_ifs at h
  · exact waitLoop_passes h
  · cases h

theorem supervise_passes {signals : SignalWaiter} {rounds : List Round} {passed : Timespec}
    {result : WaitResult}
    (h : .sigtimedwait passed result ∈ (supervise width options signals rounds).1) :
    passed = timespec width (tick options) := by
  induction rounds with
  | nil => cases h
  | cons round rounds ih =>
    have hwait : .sigtimedwait passed result ∈
        (signals.waitFor width (tick options) round.results).1 →
          passed = timespec width (tick options) := waitFor_passes
    rw [supervise] at h
    cases hresult : signals.waitFor width (tick options) round.results with
    | mk calls returned =>
      rw [hresult] at h hwait
      have hchecked : .sigtimedwait passed result ∈ calls ++ [.isRunning round.running] →
          passed = timespec width (tick options) := fun hmem => hwait (by simpa using hmem)
      match returned, h with
      | none, h => exact hwait h
      | some (some _), h => exact hwait h
      | some none, h =>
        dsimp only at h
        split_ifs at h
        · exact (List.mem_append.mp h).elim hchecked ih
        · exact hchecked h

/-- Every `sigtimedwait` of every supervision gets the configured interval, in a `timespec` that
the call accepts. -/
def WaitsAsConfigured (width : ℕ) (options : Options) : Prop :=
  ∀ signals rounds passed result,
    .sigtimedwait passed result ∈ (supervise width options signals rounds).1 →
      0 ≤ passed.tvNsec ∧ passed.tvNsec < 10 ^ 9 ∧
        passed.tvSec * 10 ^ 9 + passed.tvNsec = (options.healthIntervalS.toNat : ℤ) * 10 ^ 9

/-- The supervision waits as configured exactly if the interval in milliseconds is both an
`unsigned` and a `long`. -/
theorem supervise_waits_iff (hwidth : 32 ≤ width) (options : Options)
    (hpos : 0 < options.healthIntervalS) :
    WaitsAsConfigured width options ↔
      options.healthIntervalS.toNat * 1000 < 2 ^ 32 ∧
        options.healthIntervalS.toNat * 1000 < 2 ^ (width - 1) := by
  obtain ⟨hzero, hlt⟩ := tick_bounds options
  have hself : toLong width (tick options) = tick options ↔ tick options < 2 ^ (width - 1) :=
    toLong_eq_self_iff (by omega) hzero
  have hmax : max 0 (tick options) = tick options := max_eq_right hzero
  have htick := tick_eq hpos
  constructor
  · intro h
    obtain ⟨-, -, htotal⟩ := h {} [⟨[.timedOut], false⟩] (timespec width (tick options))
      .timedOut (by simp [supervise, waitFor, waitLoop])
    rw [timespec_total, hmax] at htotal
    -- Neither the product nor the conversion can make a number larger.
    have hbounds := toLong_bounds width hzero
    have hmod := Nat.mod_le (options.healthIntervalS.toNat * 1000) (2 ^ 32)
    have hwhole : tick options = options.healthIntervalS.toNat * 1000 := by omega
    have hlong := hself.mp (by omega)
    rw [hwhole] at hlong hlt
    exact ⟨by exact_mod_cast hlt, by exact_mod_cast hlong⟩
  · rintro ⟨hunsigned, hlong⟩ signals rounds passed result hmem
    rw [Nat.mod_eq_of_lt hunsigned] at htick
    have hconverted := hself.mpr (by rw [htick]; exact_mod_cast hlong)
    obtain ⟨-, hnsec, hsign⟩ := timespec_nsec width (tick options)
    have htotal := timespec_total width (tick options)
    rw [hmax, hconverted] at hsign htotal
    obtain rfl := supervise_passes hmem
    exact ⟨hsign hzero, hnsec, by rw [htotal, htick]; push_cast; ring⟩

/-- The default interval. -/
theorem supervise_waits_default : (32 ≤ 32 ∧ 0 < ({} : Options).healthIntervalS) ∧
    WaitsAsConfigured 32 {} :=
  ⟨by decide, (supervise_waits_iff le_rfl {} (by decide)).mpr (by decide)⟩

/-- Intervals that the command line takes: 49 days become 704 milliseconds in `unsigned`
arithmetic, and 25 days a negative time in a `long` of 32 bits. -/
theorem long_interval_wraps :
    parse 64 ["aeb_node", "--health-interval", "4294968"] =
        (some { healthIntervalS := 4294968 }, "") ∧
      timespec 64 (tick { healthIntervalS := 4294968 }) = ⟨0, 704000000⟩ ∧
      ¬ WaitsAsConfigured 64 { healthIntervalS := 4294968 } ∧
      parse 32 ["aeb_node", "--health-interval", "2147484"] =
        (some { healthIntervalS := 2147484 }, "") ∧
      timespec 32 (tick { healthIntervalS := 2147484 }) = ⟨-2147483, -296000000⟩ ∧
      ¬ WaitsAsConfigured 32 { healthIntervalS := 2147484 } := by
  refine ⟨by decide +kernel, by decide +kernel, fun h => ?_, by decide +kernel, by decide +kernel,
    fun h => ?_⟩
  · obtain ⟨-, -, htotal⟩ := h {} [⟨[.timedOut], false⟩] ⟨0, 704000000⟩ .timedOut
      (by decide +kernel)
    revert htotal
    decide +kernel
  · obtain ⟨hsign, -⟩ := h {} [⟨[.timedOut], false⟩] ⟨-2147483, -296000000⟩ .timedOut
      (by decide +kernel)
    revert hsign
    decide +kernel

end SignalWaiter
end AebNode
