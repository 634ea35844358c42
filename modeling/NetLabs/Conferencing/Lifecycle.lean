import Mathlib.Data.List.Nodup
import NetLabs.Conferencing.Server

/-!
# The life of the server (`main` and `KILL_HANDLER` of `server/server.c`)

The main thread accepts connections and creates a thread for each, which reads the variable `accept_fd` some time later.
When `thread_pool` is full, or on `SIGINT`, it waits for the threads and releases the user table.

What a thread does with a request is left to `Server`; here one turn of its loop is that it looks at `terminate`, and
then that it receives.  `accept_fd` keeps its place from turn to turn of the loop in `main`, and signals are taken by
the main thread.
-/

namespace Conferencing

open Transition

/-- `THREAD_CAPACITY`. -/
abbrev threadCapacity : Nat := 10

/-- Where a thread in `connection_handler` is: before it has read `accept_fd`, at the head of its loop, in `recv`, or
behind its end. -/
inductive WorkerStage
  | created
  | head
  | receiving
  | ended
  deriving DecidableEq

/-- A thread, with the connection that it serves. -/
structure Worker where
  connection : Option Nat
  stage : WorkerStage
  deriving DecidableEq

/-- Where the main thread is: in `accept`, behind it, behind `pthread_create`, waiting for thread `i` of a full pool,
about to return from `main`, waiting for thread `i` in `KILL_HANDLER`, about to `exit`, or behind its end. -/
inductive MainStage
  | accepting
  | accepted
  | created
  | joining (i : Nat)
  | returning
  | handling (i : Nat)
  | exiting
  | ended
  deriving DecidableEq

/-- The program of the server.  Connections and threads are numbered as they come; `joined` is which threads have been
joined, and `released` is how often the table has been freed. -/
structure Lifecycle where
  main : MainStage
  accepted : Nat
  threads : List Worker
  threadPool : List Nat
  threadCount : Nat
  terminate : Bool
  joined : List Nat
  released : Nat

inductive LifecycleEvent
  | accept
  | create
  | count
  | full
  | join
  | release
  | exit
  | interrupt
  | read (k : Nat)
  | head (k : Nat)
  | receive (k : Nat) (goesOn : Bool)
  deriving DecidableEq

namespace Lifecycle

def start : Lifecycle := ⟨.accepting, 0, [], List.replicate threadCapacity 0, 0, false, [], 0⟩

/-- `pthread_join(thread_pool[i], NULL)`, which waits for the end of the thread. -/
def joinThread (s : Lifecycle) (i : Nat) (main : MainStage) : Option Lifecycle :=
  s.threadPool[i]?.bind fun k =>
    if (s.threads[k]?).map (·.stage) = some .ended then some { s with joined := s.joined ++ [k], main := main } else none

/-- What a thread does while the program runs. -/
def work (s : Lifecycle) (k : Nat) (stage : WorkerStage) (f : Worker → Worker) : Option Lifecycle :=
  (s.threads[k]?).bind fun w =>
    if s.main ≠ .ended ∧ w.stage = stage then some { s with threads := s.threads.set k (f w) } else none

def next (s : Lifecycle) : LifecycleEvent → Option Lifecycle
  | .accept =>
    if s.main = .accepting ∧ s.threadCount ≠ threadCapacity then
      some { s with main := .accepted, accepted := s.accepted + 1 }
    else none
  | .create =>
    -- outside `thread_pool` there is nothing to write to
    if s.main = .accepted ∧ s.threadCount < s.threadPool.length then
      some { s with
        main := .created
        threads := s.threads ++ [⟨none, .created⟩]
        threadPool := s.threadPool.set s.threadCount s.threads.length }
    else none
  | .count => if s.main = .created then some { s with main := .accepting, threadCount := s.threadCount + 1 } else none
  | .full =>
    if s.main = .accepting ∧ s.threadCount = threadCapacity then some { s with main := .joining 0 } else none
  | .join =>
    match s.main with
    | .joining i => if i < s.threadCount then s.joinThread i (.joining (i + 1)) else none
    | .handling i => if i < s.threadCount then s.joinThread i (.handling (i + 1)) else none
    | _ => none
  | .release =>
    match s.main with
    | .joining i => if i < s.threadCount then none else some { s with main := .returning, released := s.released + 1 }
    | .handling i => if i < s.threadCount then none else some { s with main := .exiting, released := s.released + 1 }
    | _ => none
  | .exit => if s.main = .returning ∨ s.main = .exiting then some { s with main := .ended } else none
  | .interrupt =>
    match s.main with
    | .handling _ | .exiting | .ended => none
    | _ => some { s with main := .handling 0, terminate := true }
  | .read k => s.work k .created fun _ => ⟨some (s.accepted - 1), .head⟩
  | .head k => s.work k .head fun w => { w with stage := if s.terminate then .ended else .receiving }
  | .receive k goesOn => s.work k .receiving fun w => { w with stage := if goesOn then .head else .ended }

end Lifecycle

/-- The runs of the server's program. -/
def lifecycle : System Lifecycle LifecycleEvent where
  init s := s = .start
  step s e t := s.next e = some t

/-! ### One step -/

/-- What thread `k` does to itself. -/
inductive Works (s : Lifecycle) (k : Nat) : LifecycleEvent → Worker → Worker → Prop
  | read {c : Option Nat} : Works s k (.read k) ⟨c, .created⟩ ⟨some (s.accepted - 1), .head⟩
  | goOn {c : Option Nat} (hsignal : s.terminate = false) : Works s k (.head k) ⟨c, .head⟩ ⟨c, .receiving⟩
  | stop {c : Option Nat} (hsignal : s.terminate = true) : Works s k (.head k) ⟨c, .head⟩ ⟨c, .ended⟩
  | receive {c : Option Nat} : Works s k (.receive k true) ⟨c, .receiving⟩ ⟨c, .head⟩
  | leave {c : Option Nat} : Works s k (.receive k false) ⟨c, .receiving⟩ ⟨c, .ended⟩

/-- The cases of one step. -/
inductive Acts (s : Lifecycle) : LifecycleEvent → Lifecycle → Prop
  | accept (hmain : s.main = .accepting) (hroom : s.threadCount ≠ threadCapacity) :
      Acts s .accept { s with main := .accepted, accepted := s.accepted + 1 }
  | create (hmain : s.main = .accepted) (hroom : s.threadCount < s.threadPool.length) :
      Acts s .create { s with
        main := .created
        threads := s.threads ++ [⟨none, .created⟩]
        threadPool := s.threadPool.set s.threadCount s.threads.length }
  | count (hmain : s.main = .created) :
      Acts s .count { s with main := .accepting, threadCount := s.threadCount + 1 }
  | full (hmain : s.main = .accepting) (hfull : s.threadCount = threadCapacity) :
      Acts s .full { s with main := .joining 0 }
  | join {i k : Nat} {c : Option Nat} (hmain : s.main = .joining i) (hi : i < s.threadCount)
      (hslot : s.threadPool[i]? = some k) (hended : s.threads[k]? = some ⟨c, .ended⟩) :
      Acts s .join { s with joined := s.joined ++ [k], main := .joining (i + 1) }
  | joinHandling {i k : Nat} {c : Option Nat} (hmain : s.main = .handling i) (hi : i < s.threadCount)
      (hslot : s.threadPool[i]? = some k) (hended : s.threads[k]? = some ⟨c, .ended⟩) :
      Acts s .join { s with joined := s.joined ++ [k], main := .handling (i + 1) }
  | release {i : Nat} (hmain : s.main = .joining i) (hi : s.threadCount ≤ i) :
      Acts s .release { s with main := .returning, released := s.released + 1 }
  | releaseHandling {i : Nat} (hmain : s.main = .handling i) (hi : s.threadCount ≤ i) :
      Acts s .release { s with main := .exiting, released := s.released + 1 }
  | exit (hmain : s.main = .returning ∨ s.main = .exiting) : Acts s .exit { s with main := .ended }
  | interrupt (hhandling : ∀ i, s.main ≠ .handling i) (hexiting : s.main ≠ .exiting) (hended : s.main ≠ .ended) :
      Acts s .interrupt { s with main := .handling 0, terminate := true }
  | works {e : LifecycleEvent} {k : Nat} {w w' : Worker} (hk : s.threads[k]? = some w) (hworks : Works s k e w w') :
      Acts s e { s with threads := s.threads.set k w' }

namespace Lifecycle

variable {s t : Lifecycle} {e : LifecycleEvent} {i k : Nat}

private theorem joinThread_eq_some {main : MainStage} (h : s.joinThread i main = some t) : ∃ k c,
    s.threadPool[i]? = some k ∧ s.threads[k]? = some ⟨c, .ended⟩ ∧ t = { s with joined := s.joined ++ [k], main := main } := by
  obtain ⟨k, hslot, h⟩ := Option.bind_eq_some_iff.1 h
  simp only [Option.ite_none_right_eq_some, Option.some.injEq, Option.map_eq_some_iff] at h
  obtain ⟨⟨⟨c, stage⟩, hk, rfl⟩, rfl⟩ := h
  exact ⟨k, c, hslot, hk, rfl⟩

private theorem work_eq_some {stage : WorkerStage} {f : Worker → Worker} (h : s.work k stage f = some t) : ∃ c,
    s.threads[k]? = some ⟨c, stage⟩ ∧ t = { s with threads := s.threads.set k (f ⟨c, stage⟩) } := by
  obtain ⟨⟨c, stage'⟩, hk, h⟩ := Option.bind_eq_some_iff.1 h
  simp only [Option.ite_none_right_eq_some, Option.some.injEq] at h
  obtain ⟨⟨-, rfl⟩, rfl⟩ := h
  exact ⟨c, hk, rfl⟩

private theorem acts (h : s.next e = some t) : Acts s e t := by
  cases e with
  | accept =>
    simp only [next, Option.ite_none_right_eq_some, Option.some.injEq] at h
    obtain ⟨⟨hmain, hroom⟩, rfl⟩ := h
    exact .accept hmain hroom
  | create =>
    simp only [next, Option.ite_none_right_eq_some, Option.some.injEq] at h
    obtain ⟨⟨hmain, hroom⟩, rfl⟩ := h
    exact .create hmain hroom
  | count =>
    simp only [next, Option.ite_none_right_eq_some, Option.some.injEq] at h
    obtain ⟨hmain, rfl⟩ := h
    exact .count hmain
  | full =>
    simp only [next, Option.ite_none_right_eq_some, Option.some.injEq] at h
    obtain ⟨⟨hmain, hfull⟩, rfl⟩ := h
    exact .full hmain hfull
  | join =>
    simp only [next] at h
    split at h
    · simp only [Option.ite_none_right_eq_some] at h
      obtain ⟨hi, h⟩ := h
      obtain ⟨k, c, hslot, hended, rfl⟩ := joinThread_eq_some h
      exact .join ‹_› hi hslot hended
    · simp only [Option.ite_none_right_eq_some] at h
      obtain ⟨hi, h⟩ := h
      obtain ⟨k, c, hslot, hended, rfl⟩ := joinThread_eq_some h
      exact .joinHandling ‹_› hi hslot hended
    · cases h
  | release =>
    simp only [next] at h
    split at h
    · simp only [Option.ite_none_left_eq_some, Option.some.injEq, Nat.not_lt] at h
      obtain ⟨hi, rfl⟩ := h
      exact .release ‹_› hi
    · simp only [Option.ite_none_left_eq_some, Option.some.injEq, Nat.not_lt] at h
      obtain ⟨hi, rfl⟩ := h
      exact .releaseHandling ‹_› hi
    · cases h
  | exit =>
    simp only [next, Option.ite_none_right_eq_some, Option.some.injEq] at h
    obtain ⟨hmain, rfl⟩ := h
    exact .exit hmain
  | interrupt =>
    cases hmain : s.main with
    | handling i => simp [next, hmain] at h
    | exiting => simp [next, hmain] at h
    | ended => simp [next, hmain] at h
    | _ =>
      simp only [next, hmain, Option.some.injEq] at h
      obtain rfl := h
      exact .interrupt (by simp [hmain]) (by simp [hmain]) (by simp [hmain])
  | read k =>
    obtain ⟨c, hk, rfl⟩ := work_eq_some h
    exact .works hk .read
  | head k =>
    obtain ⟨c, hk, rfl⟩ := work_eq_some h
    by_cases hsignal : s.terminate = true
    · rw [if_pos hsignal]
      exact .works hk (.stop hsignal)
    · rw [if_neg hsignal]
      exact .works hk (.goOn (Bool.eq_false_iff.2 hsignal))
  | receive k goesOn =>
    obtain ⟨c, hk, rfl⟩ := work_eq_some h
    cases goesOn with
    | false => exact .works hk .leave
    | true => exact .works hk .receive

end Lifecycle

/-! ### The pool -/

/-- The first threads have ended. -/
def FirstEnded (s : Lifecycle) (n : Nat) : Prop := ∀ k < n, ∃ c, s.threads[k]? = some ⟨c, .ended⟩

/-- What is known where the main thread is: in any run, in those whose signals meet `Counted`, and in those whose signals
meet `Unjoined`. -/
def MainStage.Fits (counted unjoined : Prop) (s : Lifecycle) : MainStage → Prop
  | .accepting => s.threads.length = s.threadCount ∧ s.accepted = s.threads.length ∧ s.joined = [] ∧ s.released = 0
  | .accepted => s.threads.length = s.threadCount ∧ s.accepted = s.threads.length + 1 ∧
      s.threadCount < threadCapacity ∧ s.joined = [] ∧ s.released = 0
  | .created => s.threads.length = s.threadCount + 1 ∧ s.accepted = s.threads.length ∧ s.joined = [] ∧ s.released = 0
  | .joining i => s.threads.length = s.threadCount ∧ s.accepted = s.threads.length ∧ i ≤ s.threadCount ∧
      FirstEnded s i ∧ s.joined = List.range i ∧ s.released = 0
  | .returning => s.threads.length = s.threadCount ∧ s.accepted = s.threads.length ∧ FirstEnded s s.threadCount ∧
      s.joined = List.range s.threadCount ∧ s.released = 1
  | .handling i => i ≤ s.threadCount ∧ FirstEnded s i ∧ (0 < s.released → FirstEnded s s.threadCount) ∧
      (counted → s.threads.length = s.threadCount) ∧ (unjoined → s.joined = List.range i ∧ s.released = 0)
  | .exiting | .ended => FirstEnded s s.threadCount ∧ (counted → s.threads.length = s.threadCount) ∧
      (unjoined → s.joined = List.range s.threadCount ∧ s.released = 1)

structure Pooled (counted unjoined : Prop) (s : Lifecycle) : Prop where
  count_le : s.threadCount ≤ s.threads.length
  length_le : s.threads.length ≤ s.threadCount + 1
  fits_pool : s.threads.length ≤ threadCapacity
  pool_length : s.threadPool.length = threadCapacity
  slot : ∀ i < s.threads.length, s.threadPool[i]? = some i
  served : ∀ k w, s.threads[k]? = some w → ∀ c ∈ w.connection, k ≤ c ∧ c < s.accepted
  threads_le : s.threads.length ≤ s.accepted
  fits : s.main.Fits counted unjoined s

/-- `SIGINT` does not come between `pthread_create` and `thread_count++`. -/
def Counted (s : Lifecycle) (e : LifecycleEvent) : Prop := e = .interrupt → s.main ≠ .created

/-- `SIGINT` comes before a thread has been joined. -/
def Unjoined (s : Lifecycle) (e : LifecycleEvent) : Prop :=
  e = .interrupt → s.main = .accepting ∨ s.main = .accepted ∨ s.main = .created ∨ s.main = .joining 0

instance (s : Lifecycle) : DecidablePred (Counted s) := fun e =>
  inferInstanceAs (Decidable (e = .interrupt → s.main ≠ .created))

instance (s : Lifecycle) : DecidablePred (Unjoined s) := fun e =>
  inferInstanceAs (Decidable (e = .interrupt →
    s.main = .accepting ∨ s.main = .accepted ∨ s.main = .created ∨ s.main = .joining 0))

section Pooled

variable {s t : Lifecycle} {e : LifecycleEvent} {counted unjoined : Prop} {k n : Nat} {w w' : Worker}

theorem FirstEnded.set (h : FirstEnded s n) (hk : s.threads[k]? = some w) (hw : w.stage ≠ .ended) :
    FirstEnded { s with threads := s.threads.set k w' } n := by
  intro j hj
  obtain ⟨c, hc⟩ := h j hj
  refine ⟨c, ?_⟩
  have hne : k ≠ j := by
    rintro rfl
    obtain rfl := Option.some.inj (hk.symm.trans hc)
    exact hw rfl
  simpa [List.getElem?_set_ne hne] using hc

theorem FirstEnded.succ (h : FirstEnded s n) {c : Option Nat} (hn : s.threads[n]? = some ⟨c, .ended⟩) :
    FirstEnded s (n + 1) := by
  intro k hk
  rcases Nat.lt_succ_iff_lt_or_eq.1 hk with hlt | rfl
  · exact h k hlt
  · exact ⟨c, hn⟩

private theorem Works.stage_ne (h : Works s k e w w') : w.stage ≠ .ended := by
  cases h <;> simp

theorem MainStage.Fits.set {main : MainStage} (h : main.Fits counted unjoined s) (hk : s.threads[k]? = some w)
    (hw : w.stage ≠ .ended) : main.Fits counted unjoined { s with threads := s.threads.set k w' } := by
  cases main <;> simp only [MainStage.Fits, List.length_set] at h ⊢
  case joining i => exact ⟨h.1, h.2.1, h.2.2.1, h.2.2.2.1.set hk hw, h.2.2.2.2⟩
  case returning => exact ⟨h.1, h.2.1, h.2.2.1.set hk hw, h.2.2.2⟩
  case handling i => exact ⟨h.1, h.2.1.set hk hw, fun hpos => (h.2.2.1 hpos).set hk hw, h.2.2.2⟩
  case exiting => exact ⟨h.1.set hk hw, h.2⟩
  case ended => exact ⟨h.1.set hk hw, h.2⟩
  all_goals exact h

private theorem Pooled.works (h : Pooled counted unjoined s) (hk : s.threads[k]? = some w) (hworks : Works s k e w w') :
    Pooled counted unjoined { s with threads := s.threads.set k w' } := by
  have hlength : k < s.threads.length := (List.getElem?_eq_some_iff.1 hk).1
  have hle := h.threads_le
  refine ⟨?_, ?_, ?_, h.pool_length, ?_, fun j v hj c hc => ?_, ?_, h.fits.set hk hworks.stage_ne⟩
  · simpa using h.count_le
  · simpa using h.length_le
  · simpa using h.fits_pool
  · simpa using h.slot
  · by_cases hkj : k = j
    · subst hkj
      rw [List.getElem?_set_self hlength] at hj
      obtain rfl := Option.some.inj hj
      cases hworks with
      | read =>
        obtain rfl := Option.some.inj hc
        dsimp only
        omega
      | _ => exact h.served k _ hk c hc
    · rw [List.getElem?_set_ne hkj] at hj
      exact h.served j v hj c hc
  · simpa using hle

theorem Pooled.next (h : Pooled counted unjoined s) (hcounted : counted → Counted s e)
    (hunjoined : unjoined → Unjoined s e) (hst : s.next e = some t) : Pooled counted unjoined t := by
  obtain ⟨hcount, hlength, hpool, hslots, hslot, hserved, haccepted, hfits⟩ := h
  have hacts := Lifecycle.acts hst
  cases hacts with
  | accept hmain hroom =>
    rw [hmain] at hfits
    obtain ⟨hall, hacc, hjoined, hreleased⟩ := hfits
    refine ⟨hcount, hlength, hpool, hslots, hslot, fun k w hk c hc => ?_, Nat.le_succ_of_le haccepted,
      hall, by rw [hacc], ?_, hjoined, hreleased⟩
    · have := hserved k w hk c hc
      exact ⟨this.1, by dsimp only; omega⟩
    · show s.threadCount < threadCapacity
      omega
  | create hmain hroom =>
    rw [hmain] at hfits
    obtain ⟨hall, hacc, hlt, hjoined, hreleased⟩ := hfits
    refine ⟨?_, ?_, ?_, ?_, fun i hi => ?_, fun k w hk c hc => ?_, ?_, ?_⟩
    · simp only [List.length_append, List.length_singleton]
      omega
    · simp only [List.length_append, List.length_singleton]
      omega
    · simp only [List.length_append, List.length_singleton]
      omega
    · rw [List.length_set, hslots]
    · simp only [List.length_append, List.length_singleton] at hi
      dsimp only
      by_cases hnew : i = s.threads.length
      · rw [hnew, hall, List.getElem?_set_self hroom]
      · rw [List.getElem?_set_ne (by omega)]
        exact hslot i (by omega)
    · dsimp only at hk
      rcases Nat.lt_or_ge k s.threads.length with hlt | hge
      · rw [List.getElem?_append_left hlt] at hk
        exact hserved k w hk c hc
      · rw [List.getElem?_append_right hge] at hk
        obtain rfl := List.mem_singleton.1 (List.mem_of_getElem? hk)
        cases hc
    · simp only [List.length_append, List.length_singleton]
      omega
    · simp only [MainStage.Fits, List.length_append, List.length_singleton]
      exact ⟨by omega, by omega, hjoined, hreleased⟩
  | count hmain =>
    rw [hmain] at hfits
    obtain ⟨hall, hacc, hjoined, hreleased⟩ := hfits
    exact ⟨by dsimp only; omega, by dsimp only; omega, hpool, hslots, hslot, hserved, haccepted, hall, hacc, hjoined,
      hreleased⟩
  | full hmain hfull =>
    rw [hmain] at hfits
    obtain ⟨hall, hacc, hjoined, hreleased⟩ := hfits
    exact ⟨hcount, hlength, hpool, hslots, hslot, hserved, haccepted, hall, hacc, Nat.zero_le _,
      fun k hk => absurd hk (Nat.not_lt_zero k), hjoined, hreleased⟩
  | @join i k c hmain hi hpooled hended =>
    rw [hmain] at hfits
    obtain ⟨hall, hacc, -, hfirst, hjoined, hreleased⟩ := hfits
    obtain rfl : i = k := Option.some.inj ((hslot i (by omega)).symm.trans hpooled)
    exact ⟨hcount, hlength, hpool, hslots, hslot, hserved, haccepted, hall, hacc, hi, hfirst.succ hended,
      by rw [List.range_succ, hjoined], hreleased⟩
  | @joinHandling i k c hmain hi hpooled hended =>
    rw [hmain] at hfits
    obtain ⟨-, hfirst, hreleased, hall, honce⟩ := hfits
    obtain rfl : i = k := Option.some.inj ((hslot i (by omega)).symm.trans hpooled)
    refine ⟨hcount, hlength, hpool, hslots, hslot, hserved, haccepted, hi, hfirst.succ hended, hreleased,
      hall, fun hu => ?_⟩
    obtain ⟨hjoined, hzero⟩ := honce hu
    exact ⟨by rw [List.range_succ, hjoined], hzero⟩
  | @release i hmain hi =>
    rw [hmain] at hfits
    obtain ⟨hall, hacc, hle, hfirst, hjoined, hreleased⟩ := hfits
    obtain rfl : i = s.threadCount := Nat.le_antisymm hle hi
    exact ⟨hcount, hlength, hpool, hslots, hslot, hserved, haccepted, hall, hacc, hfirst, hjoined, by rw [hreleased]⟩
  | @releaseHandling i hmain hi =>
    rw [hmain] at hfits
    obtain ⟨hle, hfirst, -, hall, honce⟩ := hfits
    obtain rfl : i = s.threadCount := Nat.le_antisymm hle hi
    refine ⟨hcount, hlength, hpool, hslots, hslot, hserved, haccepted, hfirst, hall, fun hu => ?_⟩
    obtain ⟨hjoined, hzero⟩ := honce hu
    exact ⟨hjoined, by rw [hzero]⟩
  | exit hmain =>
    refine ⟨hcount, hlength, hpool, hslots, hslot, hserved, haccepted, ?_⟩
    rcases hmain with hmain | hmain
    · rw [hmain] at hfits
      obtain ⟨hall, -, hfirst, hjoined, hreleased⟩ := hfits
      exact ⟨hfirst, fun _ => hall, fun _ => ⟨hjoined, hreleased⟩⟩
    · rw [hmain] at hfits
      exact hfits
  | interrupt hhandling hexiting hended =>
    refine ⟨hcount, hlength, hpool, hslots, hslot, hserved, haccepted, Nat.zero_le _,
      fun k hk => absurd hk (Nat.not_lt_zero k), fun hpos => ?_, fun hc => ?_, fun hu => ?_⟩
    · -- the table has been freed before only if `main` is about to return
      cases hmain : s.main with
      | returning =>
        rw [hmain] at hfits
        exact hfits.2.2.1
      | handling i => exact absurd hmain (hhandling i)
      | exiting => exact absurd hmain hexiting
      | ended => exact absurd hmain hended
      | _ =>
        rw [hmain] at hfits
        simp only [MainStage.Fits] at hfits
        dsimp only at hpos
        omega
    · cases hmain : s.main with
      | created => exact absurd hmain (hcounted hc rfl)
      | handling i => exact absurd hmain (hhandling i)
      | exiting => exact absurd hmain hexiting
      | ended => exact absurd hmain hended
      | _ =>
        rw [hmain] at hfits
        exact hfits.1
    · rcases hunjoined hu rfl with hmain | hmain | hmain | hmain <;> rw [hmain] at hfits
      · exact hfits.2.2
      · exact hfits.2.2.2
      · exact hfits.2.2
      · exact hfits.2.2.2.2
  | works hk hworks => exact Pooled.works ⟨hcount, hlength, hpool, hslots, hslot, hserved, haccepted, hfits⟩ hk hworks

private theorem pooled_start : Pooled counted unjoined .start where
  count_le := Nat.zero_le _
  length_le := Nat.zero_le _
  fits_pool := Nat.zero_le _
  pool_length := rfl
  slot i hi := absurd hi (Nat.not_lt_zero i)
  served k w hk := by cases hk
  threads_le := Nat.zero_le _
  fits := ⟨rfl, rfl, rfl, rfl⟩

theorem pooled_of_reachable (hr : Reachable lifecycle s) : Pooled False False s :=
  hr.invariant (fun _ h => h ▸ pooled_start) fun _ _ _ _ h hst => h.next False.elim False.elim hst

/-- When the table has been freed, the threads that have been counted have ended. -/
private theorem Pooled.firstEnded (h : Pooled counted unjoined s) (hpos : 0 < s.released) :
    FirstEnded s s.threadCount := by
  have hfits := h.fits
  cases hmain : s.main with
  | returning =>
    rw [hmain] at hfits
    exact hfits.2.2.1
  | handling i =>
    rw [hmain] at hfits
    exact hfits.2.2.1 hpos
  | exiting =>
    rw [hmain] at hfits
    exact hfits.1
  | ended =>
    rw [hmain] at hfits
    exact hfits.1
  | _ =>
    rw [hmain] at hfits
    simp only [MainStage.Fits] at hfits
    omega

/-- When all threads have been counted, they are all that is waited for. -/
private theorem Pooled.waited (h : Pooled True True s) : s.joined.Nodup ∧ s.released ≤ 1 ∧
    (0 < s.released → s.threads.length = s.threadCount ∧ s.joined = List.range s.threadCount) := by
  have hfits := h.fits
  cases hmain : s.main with
  | joining i =>
    rw [hmain] at hfits
    obtain ⟨hall, -, -, -, hjoined, hreleased⟩ := hfits
    exact ⟨hjoined ▸ List.nodup_range, by omega, by omega⟩
  | returning =>
    rw [hmain] at hfits
    obtain ⟨hall, -, -, hjoined, hreleased⟩ := hfits
    exact ⟨hjoined ▸ List.nodup_range, by omega, fun _ => ⟨hall, hjoined⟩⟩
  | handling i =>
    rw [hmain] at hfits
    obtain ⟨-, -, -, hall, honce⟩ := hfits
    obtain ⟨hjoined, hreleased⟩ := honce trivial
    exact ⟨hjoined ▸ List.nodup_range, by omega, by omega⟩
  | exiting =>
    rw [hmain] at hfits
    obtain ⟨-, hall, honce⟩ := hfits
    obtain ⟨hjoined, hreleased⟩ := honce trivial
    exact ⟨hjoined ▸ List.nodup_range, by omega, fun _ => ⟨hall trivial, hjoined⟩⟩
  | ended =>
    rw [hmain] at hfits
    obtain ⟨-, hall, honce⟩ := hfits
    obtain ⟨hjoined, hreleased⟩ := honce trivial
    exact ⟨hjoined ▸ List.nodup_range, by omega, fun _ => ⟨hall trivial, hjoined⟩⟩
  | _ =>
    rw [hmain] at hfits
    simp only [MainStage.Fits] at hfits
    simp [hfits]

end Pooled

/-- In every run, `thread_pool` has room for every thread that is created, and when the table has been freed, every
thread has ended but for the newest when it has not been counted. -/
theorem thread_pool_bounds {s : Lifecycle} (hr : Reachable lifecycle s) :
    s.threads.length ≤ s.threadPool.length ∧ (s.main = .accepted → s.threadCount < s.threadPool.length) ∧
    (0 < s.released → ∀ k w, s.threads[k]? = some w → w.stage ≠ .ended → k = s.threadCount) := by
  have h := pooled_of_reachable hr
  refine ⟨?_, fun hmain => ?_, fun hpos k w hk hw => ?_⟩
  · rw [h.pool_length]
    exact h.fits_pool
  · have hfits := h.fits
    rw [hmain] at hfits
    rw [h.pool_length]
    exact hfits.2.2.1
  · have hlt : k < s.threads.length := (List.getElem?_eq_some_iff.1 hk).1
    have hle := h.length_le
    by_contra hne
    obtain ⟨c, hc⟩ := h.firstEnded hpos k (by omega)
    obtain rfl := Option.some.inj (hk.symm.trans hc)
    exact hw rfl

/-- `SIGINT` between `pthread_create` and `thread_count++`, and then the end of the handler. -/
def leftBehind : List LifecycleEvent := [.accept, .create, .read 0, .head 0, .interrupt, .release]

private theorem reachable_run {events : List LifecycleEvent} {s : Lifecycle}
    (h : runFrom Lifecycle.next .start events = some s) : Reachable lifecycle s :=
  Reachable.runFrom (fun _ _ _ h => h) (.init rfl) h

/-- The thread that has not been counted waits for a request with the table already freed. -/
theorem thread_pool_bounds_left_behind : ∃ s, runFrom Lifecycle.next .start leftBehind = some s ∧
    s.threads = [⟨some 0, .receiving⟩] ∧ s.released = 1 ∧
    s.threads.length ≤ s.threadPool.length ∧ (s.main = .accepted → s.threadCount < s.threadPool.length) ∧
    (0 < s.released → ∀ k w, s.threads[k]? = some w → w.stage ≠ .ended → k = s.threadCount) := by
  obtain ⟨s, hs⟩ : ∃ s, runFrom Lifecycle.next .start leftBehind = some s := Option.isSome_iff_exists.1 (by decide)
  have hstate : (runFrom Lifecycle.next .start leftBehind).map (fun s => (s.threads, s.released)) =
      some ([⟨some 0, .receiving⟩], 1) := by decide
  rw [hs, Option.map_some, Option.some.injEq, Prod.mk.injEq] at hstate
  exact ⟨s, hs, hstate.1, hstate.2, thread_pool_bounds (reachable_run hs)⟩

/-- When `SIGINT` comes neither before the newest thread has been counted nor after a thread has been joined, each
thread is joined once and the table is freed once, when all threads have ended. -/
theorem orderly_shutdown {s : Lifecycle}
    (hr : Reachable (lifecycle.when fun s e => Counted s e ∧ Unjoined s e) s) :
    s.joined.Nodup ∧ s.released ≤ 1 ∧
      (0 < s.released → s.joined = List.range s.threads.length ∧ ∀ w ∈ s.threads, w.stage = .ended) := by
  have h : Pooled True True s := hr.invariant (fun _ h => h ▸ pooled_start) fun _ _ _ _ h hst =>
    h.next (fun _ => hst.1.1) (fun _ => hst.1.2) hst.2
  obtain ⟨hnodup, honce, hwaited⟩ := h.waited
  refine ⟨hnodup, honce, fun hpos => ?_⟩
  obtain ⟨hall, hjoined⟩ := hwaited hpos
  refine ⟨hall ▸ hjoined, fun w hw => ?_⟩
  obtain ⟨k, hk⟩ := List.mem_iff_getElem?.1 hw
  obtain ⟨c, hc⟩ := h.firstEnded hpos k (hall ▸ (List.getElem?_eq_some_iff.1 hk).1)
  obtain rfl := Option.some.inj (hk.symm.trans hc)
  rfl

/-- One thread, which serves the request that it waits for when `SIGINT` comes. -/
def oneShutDown : List LifecycleEvent :=
  [.accept, .create, .count, .read 0, .head 0, .interrupt, .receive 0 true, .head 0, .join, .release]

theorem orderly_shutdown_one : ∃ s,
    runFrom (guarded (fun s e => Counted s e ∧ Unjoined s e) Lifecycle.next) .start oneShutDown = some s ∧
    0 < s.released ∧ s.joined.Nodup ∧ s.released ≤ 1 ∧
      (0 < s.released → s.joined = List.range s.threads.length ∧ ∀ w ∈ s.threads, w.stage = .ended) := by
  obtain ⟨s, hs⟩ : ∃ s, runFrom (guarded (fun s e => Counted s e ∧ Unjoined s e) Lifecycle.next) .start oneShutDown =
      some s := Option.isSome_iff_exists.1 (by decide)
  have hstate : (runFrom (guarded (fun s e => Counted s e ∧ Unjoined s e) Lifecycle.next) .start oneShutDown).map
      (·.released) = some 1 := by decide
  rw [hs, Option.map_some, Option.some.injEq] at hstate
  exact ⟨s, hs, by omega, orderly_shutdown (reachable_guarded (fun _ _ _ h => h) rfl hs)⟩

/-- Ten connections that end at once. -/
def tenConnections : List LifecycleEvent :=
  (List.range threadCapacity).flatMap fun k => [.accept, .create, .count, .read k, .head k, .receive k false]

/-- A `SIGINT` while `main` waits for the full pool: a thread is joined twice. -/
example : (runFrom Lifecycle.next .start (tenConnections ++ [.full, .join, .interrupt, .join])).map (·.joined) =
    some [0, 0] := by decide

/-- A `SIGINT` when `main` is about to return: the table is freed twice. -/
example : (runFrom Lifecycle.next .start (tenConnections ++ [.full] ++ List.replicate 10 .join ++
    [.release, .interrupt] ++ List.replicate 10 .join ++ [.release])).map (·.released) = some 2 := by decide

/-! ### `accept_fd` -/

/-- The threads that read `accept_fd` when another connection has been accepted. -/
def lateReads (s : Lifecycle) (e : LifecycleEvent) (_ : Lifecycle) (late : List Nat) : List Nat :=
  match e with
  | .read k => if s.accepted = k + 1 then late else late ++ [k]
  | _ => late

/-- What is known of the threads that have read it. -/
structure HasRead (s : Lifecycle) (late : List Nat) : Prop where
  lt : ∀ k ∈ late, k < s.threads.length
  created : ∀ k w, s.threads[k]? = some w → w.stage = .created → k ∉ late
  read : ∀ k w, s.threads[k]? = some w → w.stage ≠ .created → ∃ c, w.connection = some c ∧ (c = k ↔ k ∉ late)

section HasRead

variable {s t : Lifecycle} {e : LifecycleEvent} {late : List Nat}

theorem HasRead.next (h : HasRead s late) (hpooled : Pooled False False s) (hst : s.next e = some t) :
    HasRead t (lateReads s e t late) := by
  have hacts := Lifecycle.acts hst
  cases hacts with
  | create hmain hroom =>
    refine ⟨fun k hk => ?_, fun k w hk hw => ?_, fun k w hk hw => ?_⟩
    · rw [List.length_append]
      exact Nat.lt_add_right _ (h.lt k hk)
    · dsimp only at hk
      rcases Nat.lt_or_ge k s.threads.length with hlt | hge
      · rw [List.getElem?_append_left hlt] at hk
        exact h.created k w hk hw
      · exact fun hmem => absurd (h.lt k hmem) (Nat.not_lt.2 hge)
    · dsimp only at hk
      rcases Nat.lt_or_ge k s.threads.length with hlt | hge
      · rw [List.getElem?_append_left hlt] at hk
        exact h.read k w hk hw
      · rw [List.getElem?_append_right hge] at hk
        obtain rfl := List.mem_singleton.1 (List.mem_of_getElem? hk)
        exact absurd rfl hw
  | @works e k w w' hk hworks =>
    have hlt : k < s.threads.length := (List.getElem?_eq_some_iff.1 hk).1
    have hacc := hpooled.threads_le
    have hold : w.stage ≠ .created → w'.stage ≠ .created → w'.connection = w.connection →
        HasRead { s with threads := s.threads.set k w' } late := by
      intro hw hw' hsame
      refine ⟨fun j hj => by simpa using h.lt j hj, fun j v hj hv => ?_, fun j v hj hv => ?_⟩ <;> dsimp only at hj
      · rw [List.getElem?_set] at hj
        split at hj
        · obtain rfl : w' = v := by simpa [hlt] using hj
          exact absurd hv hw'
        · exact h.created j v hj hv
      · rw [List.getElem?_set] at hj
        split at hj
        · rename_i hkj
          subst hkj
          obtain rfl : w' = v := by simpa [hlt] using hj
          exact hsame ▸ h.read k w hk hw
        · exact h.read j v hj hv
    cases hworks with
    | read =>
      have hnew := h.created k _ hk rfl
      have hmem : ∀ j ≠ k, (j ∈ lateReads s (.read k) { s with threads := s.threads.set k ⟨some (s.accepted - 1), .head⟩ }
          late ↔ j ∈ late) := by
        intro j hj
        simp only [lateReads]
        split
        · rfl
        · simp [hj]
      refine ⟨fun j hj => ?_, fun j v hj hv => ?_, fun j v hj hv => ?_⟩
      · by_cases hjk : j = k
        · subst hjk
          simpa using hlt
        · simpa using h.lt j ((hmem j hjk).1 hj)
      · dsimp only at hj
        rw [List.getElem?_set] at hj
        split at hj
        · obtain rfl : (⟨some (s.accepted - 1), .head⟩ : Worker) = v := by simpa [hlt] using hj
          cases hv
        · rename_i hkj
          rw [hmem j (Ne.symm hkj)]
          exact h.created j v hj hv
      · dsimp only at hj
        rw [List.getElem?_set] at hj
        split at hj
        · rename_i hkj
          subst hkj
          obtain rfl : (⟨some (s.accepted - 1), .head⟩ : Worker) = v := by simpa [hlt] using hj
          refine ⟨_, rfl, ?_⟩
          simp only [lateReads]
          split
          · exact iff_of_true (by omega) hnew
          · exact iff_of_false (by omega) (by simp)
        · rename_i hkj
          rw [hmem j (Ne.symm hkj)]
          exact h.read j v hj hv
    | goOn _ => exact hold (by simp) (by simp) rfl
    | stop _ => exact hold (by simp) (by simp) rfl
    | receive => exact hold (by simp) (by simp) rfl
    | leave => exact hold (by simp) (by simp) rfl
  | _ => exact ⟨h.lt, h.created, h.read⟩

/-- Numbers without a repetition, each at least its place, are their places. -/
private theorem eq_place_of_nodup {l : List (Option Nat)} (hnodup : l.Nodup)
    (hplace : ∀ k < l.length, ∃ c, l[k]? = some (some c) ∧ k ≤ c ∧ c < l.length) {k : Nat} (hk : k < l.length) :
    l[k]? = some (some k) := by
  -- from the last place downwards
  induction hd : l.length - k using Nat.strong_induction_on generalizing k with
  | _ d ih =>
    obtain ⟨c, hc, hle, hlt⟩ := hplace k hk
    by_cases heq : k = c
    · rw [hc, heq]
    · have hplace' := ih (l.length - c) (by omega) hlt rfl
      exact absurd ((List.getElem?_inj hk hnodup).1 (hc.trans hplace'.symm)) heq

end HasRead

/-- When there is a thread for each connection that has been accepted, and all have read `accept_fd`, no two serve the
same connection if and only if none has read it late. -/
theorem handed_over {p : Lifecycle × List Nat} (hr : Reachable (lifecycle.recording [] lateReads) p)
    (hall : p.1.accepted = p.1.threads.length) (hread : ∀ w ∈ p.1.threads, w.stage ≠ .created) :
    (p.1.threads.map (·.connection)).Nodup ↔ p.2 = [] := by
  have hpooled := pooled_of_reachable hr.of_recording
  have h : HasRead p.1 p.2 := by
    refine hr.invariant (P := fun p => HasRead p.1 p.2) (fun p h => ?_) fun p e q hr h hst => ?_
    · rw [show p.1 = .start from h.1, h.2]
      exact ⟨fun k hk => (by cases hk), fun k w hk => (by cases hk), fun k w hk => (by cases hk)⟩
    · rw [hst.2]
      exact h.next (pooled_of_reachable hr.of_recording) hst.1
  have hget : ∀ k < p.1.threads.length, ∃ c, (p.1.threads.map (·.connection))[k]? = some (some c) ∧
      k ≤ c ∧ c < p.1.threads.length ∧ (c = k ↔ k ∉ p.2) := by
    intro k hk
    have hw : p.1.threads[k]? = some p.1.threads[k] := List.getElem?_eq_getElem hk
    obtain ⟨c, hc, hlate⟩ := h.read k _ hw (hread _ (List.getElem_mem hk))
    obtain ⟨hle, hlt⟩ := hpooled.served k _ hw c hc
    exact ⟨c, by rw [List.getElem?_map, hw, Option.map_some, hc], hle, hall ▸ hlt, hlate⟩
  constructor
  · intro hnodup
    refine List.eq_nil_iff_forall_not_mem.2 fun k hk => ?_
    have hlt := h.lt k hk
    have hplace := eq_place_of_nodup hnodup (fun k hk => by
      obtain ⟨c, hc, hle, hlt, -⟩ := hget k (by simpa using hk)
      exact ⟨c, hc, hle, by simpa using hlt⟩) (k := k) (by simpa using hlt)
    obtain ⟨c, hc, -, -, hlate⟩ := hget k hlt
    rw [hc, Option.some.injEq, Option.some.injEq] at hplace
    exact hlate.1 hplace hk
  · intro hnil
    have heq : p.1.threads.map (·.connection) = (List.range p.1.threads.length).map some := by
      refine List.ext_getElem (by simp) fun k hk _ => ?_
      obtain ⟨c, hc, -, -, hlate⟩ := hget k (by simpa using hk)
      have hck : c = k := hlate.2 (by simp [hnil])
      rw [List.getElem?_eq_getElem hk, Option.some.injEq] at hc
      rw [hc, hck]
      simp
    rw [heq]
    exact List.nodup_range.map (Option.some_injective _)

/-- The first thread reads `accept_fd` when the second connection has been accepted. -/
def readLate : List LifecycleEvent := [.accept, .create, .count, .accept, .read 0, .create, .count, .read 1]

theorem handed_over_late : ∃ p, runFrom (recordNext Lifecycle.next lateReads) (.start, []) readLate = some p ∧
    p.2 = [0] ∧ p.1.threads.map (·.connection) = [some 1, some 1] ∧
    ((p.1.threads.map (·.connection)).Nodup ↔ p.2 = []) := by
  obtain ⟨p, hp⟩ : ∃ p, runFrom (recordNext Lifecycle.next lateReads) (.start, []) readLate = some p :=
    Option.isSome_iff_exists.1 (by decide)
  have hstate : (runFrom (recordNext Lifecycle.next lateReads) (.start, []) readLate).map
      (fun p => (p.2, p.1.accepted, p.1.threads)) = some ([0], 2, [⟨some 1, .head⟩, ⟨some 1, .head⟩]) := by decide
  rw [hp, Option.map_some, Option.some.injEq, Prod.mk.injEq, Prod.mk.injEq] at hstate
  obtain ⟨hlate, haccepted, hthreads⟩ := hstate
  exact ⟨p, hp, hlate, by simp [hthreads], handed_over (reachable_recordNext (fun _ _ _ h => h) rfl hp)
    (by simp [haccepted, hthreads]) (by simp [hthreads])⟩

/-! ### After `SIGINT` -/

/-- The threads that have received after `SIGINT`. -/
def lateRequests (s : Lifecycle) (e : LifecycleEvent) (_ : Lifecycle) (late : List Nat) : List Nat :=
  match e with
  | .receive k _ => if s.terminate then late ++ [k] else late
  | _ => late

/-- A thread that has received after `SIGINT` is at the head of its loop, or has ended. -/
def Stopping (s : Lifecycle) (late : List Nat) : Prop :=
  late.Nodup ∧ ∀ k ∈ late, s.terminate = true ∧ ∃ c, s.threads[k]? = some ⟨c, .head⟩ ∨ s.threads[k]? = some ⟨c, .ended⟩

theorem Stopping.next {s t : Lifecycle} {e : LifecycleEvent} {late : List Nat} (h : Stopping s late)
    (hst : s.next e = some t) : Stopping t (lateRequests s e t late) := by
  obtain ⟨hnodup, hstage⟩ := h
  have hacts := Lifecycle.acts hst
  cases hacts with
  | create _ _ =>
    refine ⟨hnodup, fun k hk => ?_⟩
    obtain ⟨hsignal, c, hc⟩ := hstage k hk
    refine ⟨hsignal, c, hc.imp (fun hc => ?_) fun hc => ?_⟩ <;>
      exact (List.getElem?_append_left (List.getElem?_eq_some_iff.1 hc).1).trans hc
  | interrupt _ _ _ => exact ⟨hnodup, fun k hk => ⟨rfl, (hstage k hk).2⟩⟩
  | @works e k w w' hk hworks =>
    have hlt : k < s.threads.length := (List.getElem?_eq_some_iff.1 hk).1
    -- the other threads of the list
    have hother : ∀ j ∈ late, k ≠ j → s.terminate = true ∧ ∃ c, (s.threads.set k w')[j]? = some ⟨c, .head⟩ ∨
        (s.threads.set k w')[j]? = some ⟨c, .ended⟩ := by
      intro j hj hne
      rw [List.getElem?_set_ne hne]
      exact hstage j hj
    have hreceiving : w.stage ≠ .head → w.stage ≠ .ended → k ∉ late := by
      intro hhead hended hmem
      obtain ⟨-, c, hc | hc⟩ := hstage k hmem <;> obtain rfl := Option.some.inj (hk.symm.trans hc)
      · exact hhead rfl
      · exact hended rfl
    have hself : (s.threads.set k w')[k]? = some w' := List.getElem?_set_self hlt
    -- a thread that receives is not on the list yet
    have hadd : w.stage = .receiving → w'.stage = .head ∨ w'.stage = .ended →
        Stopping { s with threads := s.threads.set k w' } (if s.terminate then late ++ [k] else late) := by
      intro hw hw'
      have hnew := hreceiving (by simp [hw]) (by simp [hw])
      split
      · rename_i hsignal
        refine ⟨List.nodup_append.2 ⟨hnodup, List.nodup_singleton k, ?_⟩, fun j hj => ?_⟩
        · rintro j hj _ hk rfl
          exact hnew (List.mem_singleton.1 hk ▸ hj)
        · rcases List.mem_append.1 hj with hj | hj
          · exact hother j hj fun hkj => hnew (hkj ▸ hj)
          · obtain rfl := List.mem_singleton.1 hj
            obtain ⟨c, stage⟩ := w'
            refine ⟨hsignal, c, ?_⟩
            rcases hw' with rfl | rfl
            · exact Or.inl hself
            · exact Or.inr hself
      · exact ⟨hnodup, fun j hj => hother j hj fun hkj => hnew (hkj ▸ hj)⟩
    cases hworks with
    | read =>
      have hnew := hreceiving (by simp) (by simp)
      exact ⟨hnodup, fun j hj => hother j hj fun hkj => hnew (hkj ▸ hj)⟩
    | @goOn c hsignal =>
      refine ⟨hnodup, fun j hj => hother j hj fun hkj => ?_⟩
      have hon := (hstage j hj).1
      rw [hsignal] at hon
      cases hon
    | @stop c hsignal =>
      refine ⟨hnodup, fun j hj => ?_⟩
      by_cases hkj : k = j
      · exact ⟨hsignal, c, Or.inr (hkj ▸ hself)⟩
      · exact hother j hj hkj
    | receive => exact hadd rfl (Or.inl rfl)
    | leave => exact hadd rfl (Or.inr rfl)
  | _ => exact ⟨hnodup, hstage⟩

/-- After `SIGINT`, each thread receives once more at most. -/
theorem last_requests {p : Lifecycle × List Nat} (hr : Reachable (lifecycle.recording [] lateRequests) p) :
    p.2.Nodup ∧ p.2.length ≤ threadCapacity := by
  have h : Stopping p.1 p.2 := by
    refine hr.invariant (P := fun p => Stopping p.1 p.2) (fun p h => ?_) fun p e q _ h hst => ?_
    · rw [h.2]
      exact ⟨List.nodup_nil, fun k hk => by cases hk⟩
    · rw [hst.2]
      exact h.next hst.1
  have hpooled := pooled_of_reachable hr.of_recording
  have hsubset : p.2 ⊆ List.range p.1.threads.length := by
    intro k hk
    obtain ⟨-, c, hc | hc⟩ := h.2 k hk <;> exact List.mem_range.2 (List.getElem?_eq_some_iff.1 hc).1
  refine ⟨h.1, ?_⟩
  calc p.2.length ≤ (List.range p.1.threads.length).length := (h.1.subperm hsubset).length_le
    _ = p.1.threads.length := List.length_range
    _ ≤ threadCapacity := hpooled.fits_pool

theorem last_requests_one : ∃ p, runFrom (recordNext Lifecycle.next lateRequests) (.start, []) oneShutDown = some p ∧
    p.2 = [0] ∧ p.2.Nodup ∧ p.2.length ≤ threadCapacity := by
  obtain ⟨p, hp⟩ : ∃ p, runFrom (recordNext Lifecycle.next lateRequests) (.start, []) oneShutDown = some p :=
    Option.isSome_iff_exists.1 (by decide)
  have hlate : (runFrom (recordNext Lifecycle.next lateRequests) (.start, []) oneShutDown).map Prod.snd = some [0] := by
    decide
  rw [hp, Option.map_some, Option.some.injEq] at hlate
  exact ⟨p, hp, hlate, last_requests (reachable_recordNext (fun _ _ _ h => h) rfl hp)⟩

end Conferencing
