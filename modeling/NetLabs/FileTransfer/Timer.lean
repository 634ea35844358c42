import NetLabs.FileTransfer.Stuck

/-!
# The retransmission timer

`deliver` waits for `estimated_RTT + 4 * dev_RTT`, cut off to microseconds.  With exact numbers in place of `double`, the
next wait is `rtt + 3 * dev_RTT` or `(7 * estimated_RTT - 3 * rtt) / 4 + 3 * dev_RTT`, whichever is more
(`interval_measured`).  So a round trip of one tick or more keeps the timer armed, but after one of no ticks only what has
been measured before does, and there is too little of that in the end (`disarms`).  The seconds also have to fit an `int`.
-/

namespace FileTransfer

open Transition

/-- What `deliver` computes its timer from, before it sends fragment `i`. -/
structure Timer where
  i : Nat
  estimatedRTT : ℚ
  devRTT : ℚ
  timeInterval : ℚ

/-- A fragment has been acknowledged after some ticks: the file has another one, or it was the last and the next file
begins. -/
inductive TimerEvent
  | another (ticks : Nat)
  | lastOne (ticks : Nat)

/-- `(int) q`, undefined outside the range of an `int`. -/
def toInt (q : ℚ) : Option ℤ := if -2 ^ 31 ≤ truncate q ∧ truncate q < 2 ^ 31 then some (truncate q) else none

namespace Timer

/-- `new_estimate_RTT`, with `alpha = 0.125`. -/
def newEstimateRTT (sampleRTT oldEstimatedRTT : ℚ) : ℚ := (1 - 1 / 8) * oldEstimatedRTT + 1 / 8 * sampleRTT

/-- `new_dev_RTT`, with `beta = 0.25`. -/
def newDevRTT (devRTT sampleRTT estimatedRTT : ℚ) : ℚ := (1 - 1 / 4) * devRTT + 1 / 4 * |sampleRTT - estimatedRTT|

/-- The round trip time of a fragment. -/
def rtt (ticks : Nat) : ℚ := ticks / clocksPerSec

/-- What follows the loop that sends a fragment. -/
def measured (s : Timer) (ticks : Nat) : Timer :=
  let estimatedRTT := if s.i = 0 then rtt ticks else newEstimateRTT (rtt ticks) s.estimatedRTT
  let devRTT := if s.i = 0 then rtt ticks / 2 else newDevRTT s.devRTT (rtt ticks) estimatedRTT
  ⟨s.i + 1, estimatedRTT, devRTT, estimatedRTT + 4 * devRTT⟩

/-- The timer when the next fragment is to be sent; `time_interval` outlives the file. -/
def after (s : Timer) : TimerEvent → Timer
  | .another ticks => s.measured ticks
  | .lastOne ticks => ⟨0, 0, 0, (s.measured ticks).timeInterval⟩

/-- The `timeout` that is passed to `setsockopt`: the seconds and the microseconds. -/
def timeout (s : Timer) : Option (ℤ × ℤ) :=
  if s.i = 0 then some (1, 0)
  else do
    let seconds ← toInt s.timeInterval
    let microseconds ← toInt ((s.timeInterval - seconds) * secondToMicrosecond)
    some (seconds, microseconds)

/-- The timeout is one that `setsockopt` takes, and it is not the one that means for ever. -/
def Armed (s : Timer) : Prop :=
  ∃ seconds microseconds, s.timeout = some (seconds, microseconds) ∧ 0 ≤ microseconds ∧ microseconds < 1000000 ∧
    (seconds ≠ 0 ∨ microseconds ≠ 0)

/-- After this round trip the next wait is a microsecond at least, and its seconds fit an `int`. -/
def KeepsArmed (s : Timer) : TimerEvent → Prop
  | .another ticks =>
    if s.i = 0 then 1 ≤ ticks ∧ 3 * rtt ticks < 2 ^ 31
    else (1 ≤ ticks ∨ 1 / 10 ^ 6 ≤ 7 / 4 * s.estimatedRTT + 3 * s.devRTT) ∧
      rtt ticks + 3 * s.devRTT < 2 ^ 31 ∧ 7 / 4 * s.estimatedRTT - 3 / 4 * rtt ticks + 3 * s.devRTT < 2 ^ 31
  | .lastOne _ => True

end Timer

/-- The timer over all the files that are sent, whatever is measured. -/
def timer : System Timer TimerEvent where
  init s := s = ⟨0, 0, 0, 0⟩
  step s e t := s.after e = t

namespace Timer

/-! ### The conversion to a `timeval` -/

section Timeout

variable {s : Timer} {q : ℚ}

private theorem truncate_of_nonneg (h : 0 ≤ q) : truncate q = ⌊q⌋ := if_pos h

private theorem toInt_of_nonneg (h : 0 ≤ q) : toInt q = if q < 2 ^ 31 then some ⌊q⌋ else none := by
  have hfloor : 0 ≤ ⌊q⌋ := Int.floor_nonneg.2 h
  have hlt : ⌊q⌋ < 2 ^ 31 ↔ q < 2 ^ 31 := by
    rw [Int.floor_lt]
    norm_num
  simp only [toInt, truncate_of_nonneg h, hlt, and_iff_right (show -2 ^ 31 ≤ ⌊q⌋ by omega)]

/-- The timeout behind the first fragment: the whole seconds, and the whole microseconds of the rest. -/
private theorem timeout_eq (hi : s.i ≠ 0) (h : 0 ≤ s.timeInterval) : s.timeout =
    if s.timeInterval < 2 ^ 31 then some (⌊s.timeInterval⌋, ⌊Int.fract s.timeInterval * 1000000⌋) else none := by
  have hnonneg : 0 ≤ Int.fract s.timeInterval * 1000000 := by
    have := Int.fract_nonneg s.timeInterval
    positivity
  have hlt : Int.fract s.timeInterval * 1000000 < 2 ^ 31 := by
    have := Int.fract_lt_one s.timeInterval
    linarith
  have hmicro : (s.timeInterval - ⌊s.timeInterval⌋) * (secondToMicrosecond : ℚ) = Int.fract s.timeInterval * 1000000 := by
    rw [Int.self_sub_floor, secondToMicrosecond]
    norm_num
  rw [timeout, if_neg hi, toInt_of_nonneg h]
  split
  · rw [Option.bind_eq_bind, Option.bind_some, hmicro, toInt_of_nonneg hnonneg, if_pos hlt]
    rfl
  · rfl

/-- The timer is armed for a microsecond or more, up to the range of an `int`. -/
private theorem armed_iff (hi : s.i ≠ 0) (h : 0 ≤ s.timeInterval) :
    s.Armed ↔ 1 / 10 ^ 6 ≤ s.timeInterval ∧ s.timeInterval < 2 ^ 31 := by
  have hfract := Int.fract_nonneg s.timeInterval
  have hfract' := Int.fract_lt_one s.timeInterval
  have hsplit := Int.floor_add_fract s.timeInterval
  have hfloor : 0 ≤ ⌊s.timeInterval⌋ := Int.floor_nonneg.2 h
  simp only [Armed, timeout_eq hi h]
  by_cases hlt : s.timeInterval < 2 ^ 31
  · simp only [hlt, ↓reduceIte, Option.some.injEq, Prod.mk.injEq, and_true]
    have hzero : ⌊s.timeInterval⌋ = 0 ∧ ⌊Int.fract s.timeInterval * 1000000⌋ = 0 ↔ s.timeInterval < 1 / 10 ^ 6 := by
      constructor
      · rintro ⟨hs, hus⟩
        have hone := (Int.floor_eq_zero_iff.1 hus).2
        rw [hs, Int.cast_zero, zero_add] at hsplit
        rw [← hsplit]
        linarith
      · intro hsmall
        have hs : ⌊s.timeInterval⌋ = 0 := Int.floor_eq_zero_iff.2 ⟨h, by linarith⟩
        rw [hs, Int.cast_zero, zero_add] at hsplit
        refine ⟨hs, Int.floor_eq_zero_iff.2 ⟨by positivity, ?_⟩⟩
        rw [hsplit]
        linarith
    constructor
    · rintro ⟨seconds, microseconds, ⟨rfl, rfl⟩, -, -, hne⟩
      by_contra hsmall
      obtain ⟨hs, hus⟩ := hzero.2 (not_le.1 hsmall)
      exact hne.elim (fun h => h hs) fun h => h hus
    · intro hle
      refine ⟨_, _, ⟨rfl, rfl⟩, Int.floor_nonneg.2 (by positivity), ?_, ?_⟩
      · rw [Int.floor_lt]
        push_cast
        linarith
      · by_contra hboth
        rw [not_or, not_not, not_not] at hboth
        exact absurd hle (not_le.2 (hzero.1 hboth))
  · simp [hlt]

end Timeout

/-! ### What a round trip does to the estimates -/

section Estimates

variable {s t : Timer} {ticks : Nat} {e : TimerEvent}

private theorem rtt_nonneg (ticks : Nat) : 0 ≤ rtt ticks := by
  unfold rtt
  positivity

/-- No ticks are no time, and one tick is a microsecond. -/
private theorem rtt_zero : rtt 0 = 0 := by
  simp [rtt]

private theorem le_rtt (h : 1 ≤ ticks) : 1 / 10 ^ 6 ≤ rtt ticks := by
  have hcast : (1 : ℚ) ≤ ticks := by exact_mod_cast h
  rw [rtt, clocksPerSec]
  norm_num
  linarith

/-- The estimates are never negative. -/
structure Estimates (s : Timer) : Prop where
  estimatedRTT : 0 ≤ s.estimatedRTT
  devRTT : 0 ≤ s.devRTT

theorem Estimates.measured (h : Estimates s) (ticks : Nat) : Estimates (s.measured ticks) := by
  have hrtt := rtt_nonneg ticks
  have hest := h.estimatedRTT
  have hdev := h.devRTT
  constructor
  · simp only [Timer.measured, newEstimateRTT]
    split
    · exact hrtt
    · linarith
  · simp only [Timer.measured, newDevRTT]
    split
    · linarith
    · have habs := abs_nonneg (rtt ticks - newEstimateRTT (rtt ticks) s.estimatedRTT)
      linarith

theorem Estimates.after (h : Estimates s) (e : TimerEvent) : Estimates (s.after e) := by
  cases e with
  | another ticks => exact h.measured ticks
  | lastOne ticks => exact ⟨le_rfl, le_rfl⟩

theorem estimates_of_reachable (hr : Reachable timer s) : Estimates s := by
  refine hr.invariant ?_ ?_
  · rintro s rfl
    exact ⟨le_rfl, le_rfl⟩
  · rintro s e t - h rfl
    exact h.after e

/-- The first wait is three round trips. -/
private theorem interval_first (hi : s.i = 0) (ticks : Nat) : (s.measured ticks).timeInterval = 3 * rtt ticks := by
  simp only [Timer.measured, hi, ↓reduceIte]
  ring

/-- The next wait, on either side of the estimate. -/
private theorem interval_measured (hi : s.i ≠ 0) (ticks : Nat) : (s.measured ticks).timeInterval =
    max (rtt ticks + 3 * s.devRTT) (7 / 4 * s.estimatedRTT - 3 / 4 * rtt ticks + 3 * s.devRTT) := by
  simp only [Timer.measured, hi, ↓reduceIte, newEstimateRTT, newDevRTT]
  rcases le_total s.estimatedRTT (rtt ticks) with hle | hle
  · rw [abs_of_nonneg (by linarith), max_eq_left (by linarith)]
    ring
  · rw [abs_of_nonpos (by linarith), max_eq_right (by linarith)]
    ring

private theorem interval_nonneg (h : Estimates s) (ticks : Nat) : 0 ≤ (s.measured ticks).timeInterval := by
  have hm := h.measured ticks
  have hsum : (s.measured ticks).timeInterval = (s.measured ticks).estimatedRTT + 4 * (s.measured ticks).devRTT := rfl
  rw [hsum]
  linarith [hm.estimatedRTT, hm.devRTT]

/-- The timer is armed for the next fragment exactly when the round trip keeps it so. -/
private theorem armed_after_iff (h : Estimates s) (e : TimerEvent) : (s.after e).Armed ↔ s.KeepsArmed e := by
  cases e with
  | lastOne ticks => exact iff_of_true ⟨1, 0, rfl, le_rfl, by decide, Or.inl one_ne_zero⟩ trivial
  | another ticks =>
    have hrtt := rtt_nonneg ticks
    have hest := h.estimatedRTT
    have hdev := h.devRTT
    show (s.measured ticks).Armed ↔ _
    rw [armed_iff (Nat.succ_ne_zero s.i) (interval_nonneg h ticks), KeepsArmed]
    have hzero : ¬ 1 ≤ ticks → rtt ticks = 0 := fun hno => by rw [Nat.lt_one_iff.1 (not_le.1 hno), rtt_zero]
    by_cases hi : s.i = 0
    · rw [interval_first hi, if_pos hi]
      refine and_congr_left fun _ => ⟨fun hle => ?_, fun hone => ?_⟩
      · by_contra hno
        rw [hzero hno] at hle
        norm_num at hle
      · linarith [le_rtt hone]
    · rw [interval_measured hi, if_neg hi, max_lt_iff]
      refine and_congr_left fun _ => ?_
      rw [le_max_iff]
      constructor
      · intro hle
        by_cases hone : 1 ≤ ticks
        · exact Or.inl hone
        · rw [hzero hone] at hle
          right
          rcases hle with hle | hle <;> linarith
      · rintro (hone | hle)
        · left
          linarith [le_rtt hone]
        · by_cases hone : 1 ≤ ticks
          · left
            linarith [le_rtt hone]
          · right
            rw [hzero hone]
            linarith

/-- What is left of the estimates: a round trip of no ticks takes a sixteenth of it away. -/
def reserve (s : Timer) : ℚ := 7 / 2 * s.estimatedRTT + s.devRTT

private theorem reserve_measured_zero (h : Estimates s) (hi : s.i ≠ 0) :
    (s.measured 0).reserve ≤ 15 / 16 * s.reserve := by
  have hest := h.estimatedRTT
  have hdev := h.devRTT
  simp only [Timer.measured, reserve, hi, ↓reduceIte, newEstimateRTT, newDevRTT, rtt_zero]
  rw [abs_of_nonpos (by linarith)]
  linarith

/-- The timer after `k` round trips of no ticks. -/
def quiet (s : Timer) (k : Nat) : Timer := (fun s => s.after (.another 0))^[k] s

private theorem quiet_succ (s : Timer) (k : Nat) :
    s.quiet (k + 1) = (s.quiet k).measured 0 := Function.iterate_succ_apply' _ _ _

private theorem reserve_quiet (h : Estimates s) (hi : s.i ≠ 0) (k : Nat) :
    Estimates (s.quiet k) ∧ (s.quiet k).i ≠ 0 ∧ (s.quiet k).reserve ≤ (15 / 16) ^ k * s.reserve := by
  induction k with
  | zero => exact ⟨h, hi, by simp [quiet]⟩
  | succ k ih =>
    obtain ⟨hk, hik, hle⟩ := ih
    rw [quiet_succ]
    refine ⟨hk.measured 0, Nat.succ_ne_zero _, (reserve_measured_zero hk hik).trans ?_⟩
    rw [pow_succ]
    linarith

/-- Behind the first fragment, enough round trips of no ticks turn the timer off, whatever has been measured before. -/
theorem disarms (h : Estimates s) (hi : s.i ≠ 0) : ∃ k, ¬ (s.quiet k).Armed := by
  have hnonneg : 0 ≤ s.reserve := by
    have hest := h.estimatedRTT
    have hdev := h.devRTT
    unfold reserve
    positivity
  obtain ⟨k, hk⟩ := exists_pow_lt_of_lt_one (show (0 : ℚ) < 1 / (3 * 10 ^ 6 * (s.reserve + 1)) by positivity)
    (show (15 / 16 : ℚ) < 1 by norm_num)
  obtain ⟨hest, hik, hle⟩ := reserve_quiet h hi k
  refine ⟨k + 1, ?_⟩
  rw [quiet_succ, armed_iff (Nat.succ_ne_zero _) (interval_nonneg hest 0), interval_measured hik, not_and_or, rtt_zero]
  left
  have hsmall : (15 / 16) ^ k * s.reserve < 1 / (3 * 10 ^ 6) := by
    rw [lt_div_iff₀ (by positivity)] at hk ⊢
    have hpow : (0 : ℚ) < (15 / 16) ^ k := by positivity
    linarith
  have hreserve : (s.quiet k).reserve = 7 / 2 * (s.quiet k).estimatedRTT + (s.quiet k).devRTT := rfl
  have hestimate := hest.estimatedRTT
  have hdev := hest.devRTT
  rw [not_le, max_lt_iff]
  constructor <;> linarith

end Estimates

end Timer

/-- The timer is armed before every fragment of a run whose round trips all keep it armed, and one that does not keep it
armed leaves it off, or undefined. -/
theorem timer_armed {s : Timer} (hr : Reachable (timer.when Timer.KeepsArmed) s) :
    s.Armed ∧ ∀ e, (s.after e).Armed ↔ s.KeepsArmed e := by
  refine ⟨?_, fun e => Timer.armed_after_iff (Timer.estimates_of_reachable hr.of_when) e⟩
  cases hr with
  | init h =>
    obtain rfl : s = ⟨0, 0, 0, 0⟩ := h
    exact ⟨1, 0, rfl, le_rfl, by decide, Or.inl one_ne_zero⟩
  | @step s₀ _ e hr hst =>
    obtain ⟨hkeeps, rfl⟩ := hst
    exact (Timer.armed_after_iff (Timer.estimates_of_reachable hr.of_when) e).2 hkeeps

/-- Two round trips of three ticks and of none. -/
theorem timer_armed_three : ∃ s, Reachable timer s ∧ s.i = 2 ∧ s.Armed := by
  let first : Timer := ⟨0, 0, 0, 0⟩
  have hstart : Reachable (timer.when Timer.KeepsArmed) first := .init rfl
  have hthree : first.KeepsArmed (.another 3) := by
    norm_num [Timer.KeepsArmed, first, Timer.rtt, clocksPerSec]
  have hnone : (first.after (.another 3)).KeepsArmed (.another 0) := by
    norm_num [Timer.KeepsArmed, first, Timer.after, Timer.measured, Timer.rtt, clocksPerSec]
  have hr : Reachable (timer.when Timer.KeepsArmed) ((first.after (.another 3)).after (.another 0)) :=
    .step (.step hstart ⟨hthree, rfl⟩) ⟨hnone, rfl⟩
  exact ⟨_, hr.of_when, rfl, (timer_armed hr).1⟩

/-- One round trip of no ticks: the second fragment is sent with a timeout of zero. -/
theorem timer_armed_fails : ¬ ∀ s, Reachable timer s → s.Armed := by
  intro h
  let first : Timer := ⟨0, 0, 0, 0⟩
  have hr : Reachable timer (first.after (.another 0)) := .step (.init rfl) rfl
  have hkeeps := (Timer.armed_after_iff ⟨le_rfl, le_rfl⟩ (.another 0)).1 (h _ hr)
  simp [Timer.KeepsArmed, first] at hkeeps

end FileTransfer
