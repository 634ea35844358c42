import Mathlib.Logic.Function.Basic

/-!
# Programs with mutexes

The code of one thread that runs while the other threads do nothing: it reads and writes a shared memory, locks and
unlocks non-recursive mutexes, and may be undefined.  To lock a mutex that is held, by whomever, is to wait for ever
(`Outcome.blocked`, with the world the thread leaves behind); undefined behaviour is `Outcome.fault`.
-/

namespace LockProg

variable {L M α β : Type}

/-- Which mutexes are held, and the memory. -/
@[ext] structure World (L M : Type) where
  held : L → Bool
  mem : M

inductive Outcome (L M α : Type)
  | ret (a : α) (w : World L M)
  | blocked (w : World L M)
  | fault

def Prog (L M α : Type) := World L M → Outcome L M α

/-- The outcome of a program that goes on with `f` when it returns. -/
def Outcome.bind (o : Outcome L M α) (f : α → Prog L M β) : Outcome L M β :=
  match o with
  | .ret a w => f a w
  | .blocked w => .blocked w
  | .fault => .fault

instance : Monad (Prog L M) where
  pure a := fun w => .ret a w
  bind p f := fun w => (p w).bind f

namespace World

/-- No mutex is held. -/
def Free (w : World L M) : Prop := ∀ l, w.held l = false

def setMem (w : World L M) (m : M) : World L M := { w with mem := m }

@[simp] theorem mem_setMem (w : World L M) (m : M) : (w.setMem m).mem = m := rfl
@[simp] theorem held_setMem (w : World L M) (m : M) : (w.setMem m).held = w.held := rfl
@[simp] theorem setMem_setMem (w : World L M) (m m' : M) : (w.setMem m).setMem m' = w.setMem m' := rfl
@[simp] theorem setMem_mem (w : World L M) : w.setMem w.mem = w := rfl

variable [DecidableEq L]

def acquire (w : World L M) (l : L) : World L M := { w with held := Function.update w.held l true }

def release (w : World L M) (l : L) : World L M := { w with held := Function.update w.held l false }

@[simp] theorem mem_acquire (w : World L M) (l : L) : (w.acquire l).mem = w.mem := rfl
@[simp] theorem mem_release (w : World L M) (l : L) : (w.release l).mem = w.mem := rfl
@[simp] theorem setMem_acquire (w : World L M) (l : L) (m : M) :
    (w.acquire l).setMem m = (w.setMem m).acquire l := rfl
@[simp] theorem setMem_release (w : World L M) (l : L) (m : M) :
    (w.release l).setMem m = (w.setMem m).release l := rfl

@[simp] theorem held_acquire_self (w : World L M) (l : L) : (w.acquire l).held l = true := by
  simp [acquire]

@[simp] theorem held_acquire_of_ne (w : World L M) {k l : L} (h : k ≠ l) : (w.acquire l).held k = w.held k := by
  simp [acquire, h]

/-- Unlocking what was just locked leaves the locks as they were. -/
theorem release_acquire {w : World L M} {l : L} (h : w.held l = false) : (w.acquire l).release l = w := by
  ext1
  · funext k
    by_cases hk : k = l
    · subst hk; simp [acquire, release, h]
    · simp [acquire, release, hk]
  · rfl

/-- Unlocking the first of two mutexes. -/
theorem release_acquire_acquire {w : World L M} {k l : L} (hkl : k ≠ l) (h : w.held l = false) :
    ((w.acquire l).acquire k).release l = w.acquire k := by
  ext1
  · funext j
    by_cases hj : j = l
    · subst hj; simp [acquire, release, h, Ne.symm hkl]
    · by_cases hk : j = k
      · subst hk; simp [acquire, release, hj]
      · simp [acquire, release, hj, hk]
  · rfl

end World

/-! ### Statements -/

variable [DecidableEq L]

/-- `pthread_mutex_lock`. -/
def lock (l : L) : Prog L M Unit := fun w => if w.held l then .blocked w else .ret () (w.acquire l)

/-- `pthread_mutex_unlock`. -/
def unlock (l : L) : Prog L M Unit := fun w => .ret () (w.release l)

/-- Read the memory. -/
def read (f : M → α) : Prog L M α := fun w => .ret (f w.mem) w

/-- Write the memory. -/
def write (f : M → M) : Prog L M Unit := fun w => .ret () (w.setMem (f w.mem))

/-- A computation that is undefined when it gives `none`. -/
def checked (a : Option α) : Prog L M α := fun w =>
  match a with
  | some a => .ret a w
  | none => .fault

omit [DecidableEq L]

/-- A program that changes the memory to `m`, or is undefined. -/
def finish (m : Option M) : Prog L M Unit := fun w =>
  match m with
  | some m => .ret () (w.setMem m)
  | none => .fault

@[simp] theorem run_finish_some (m : M) (w : World L M) : finish (some m) w = .ret () (w.setMem m) := rfl
@[simp] theorem run_finish_none (w : World L M) : finish none w = .fault := rfl
@[simp] theorem run_pure (a : α) (w : World L M) : (pure a : Prog L M α) w = .ret a w := rfl
@[simp] theorem run_bind (p : Prog L M α) (f : α → Prog L M β) (w : World L M) :
    (p >>= f) w = (p w).bind f := rfl
@[simp] theorem bind_ret (a : α) (w : World L M) (f : α → Prog L M β) : (Outcome.ret a w).bind f = f a w := rfl
@[simp] theorem bind_blocked (w : World L M) (f : α → Prog L M β) :
    (Outcome.blocked w : Outcome L M α).bind f = .blocked w := rfl
@[simp] theorem bind_fault (f : α → Prog L M β) : (Outcome.fault : Outcome L M α).bind f = .fault := rfl
@[simp] theorem run_read (f : M → α) (w : World L M) : read f w = .ret (f w.mem) w := rfl
@[simp] theorem run_write (f : M → M) (w : World L M) : write f w = .ret () (w.setMem (f w.mem)) := rfl
@[simp] theorem run_checked_some (a : α) (w : World L M) : checked (some a) w = .ret a w := rfl
@[simp] theorem run_checked_none (w : World L M) : checked (none : Option α) w = .fault := rfl

/-- A program that waits leaves the memory `m`, one that returns meets `Q`. -/
def Outcome.Yields (o : Outcome L M α) (m : M) (Q : α → M → Prop) : Prop :=
  match o with
  | .ret a w => Q a w.mem
  | .blocked w => w.mem = m
  | .fault => True

/-- A program in two parts returns when both return. -/
theorem Outcome.bind_eq_ret {o : Outcome L M α} {f : α → Prog L M β} {b : β} {w : World L M} :
    o.bind f = .ret b w ↔ ∃ a w', o = .ret a w' ∧ f a w' = .ret b w := by
  constructor
  · intro h
    cases o with
    | ret a w' => exact ⟨a, w', rfl, h⟩
    | blocked _ => cases h
    | fault => cases h
  · rintro ⟨a, w', rfl, h⟩
    exact h

theorem Outcome.Yields.of_ret {o : Outcome L M α} {m : M} {Q : α → M → Prop} {a : α} {w : World L M}
    (h : o.Yields m Q) (ho : o = .ret a w) : Q a w.mem := by
  rw [ho] at h
  exact h

theorem Outcome.Yields.bind {o : Outcome L M α} {m : M} {P : α → M → Prop} {Q : β → M → Prop}
    {f : α → Prog L M β} (h : o.Yields m P) (hf : ∀ a w, P a w.mem → (f a w).Yields m Q) : (o.bind f).Yields m Q := by
  cases o with
  | ret a w => exact hf a w h
  | blocked w => exact h
  | fault => trivial

theorem Outcome.Yields.mono {o : Outcome L M α} {m : M} {P Q : α → M → Prop} (h : o.Yields m P)
    (hpq : ∀ a m', P a m' → Q a m') : o.Yields m Q := by
  cases o with
  | ret a w => exact hpq a w.mem h
  | blocked w => exact h
  | fault => trivial

/-! ### Invariants of the world -/

/-- The world that is left behind, if it is defined, has a property. -/
def Outcome.All (o : Outcome L M α) (I : World L M → Prop) : Prop :=
  match o with
  | .ret _ w => I w
  | .blocked w => I w
  | .fault => True

/-- A program keeps a property of the world, whether it returns or waits. -/
def Preserves (I : World L M → Prop) (p : Prog L M α) : Prop := ∀ w, I w → (p w).All I

section Preserves

variable {I : World L M → Prop} {p q : Prog L M α} {f : α → Prog L M β}

theorem Outcome.All.of_ret {o : Outcome L M α} {a : α} {w : World L M} (h : o.All I) (ho : o = .ret a w) : I w := by
  rw [ho] at h
  exact h

theorem Outcome.All.of_blocked {o : Outcome L M α} {w : World L M} (h : o.All I) (ho : o = .blocked w) : I w := by
  rw [ho] at h
  exact h

theorem Outcome.All.bind {o : Outcome L M α} (h : o.All I) (hf : ∀ a, Preserves I (f a)) : (o.bind f).All I := by
  cases o with
  | ret a w => exact hf a w h
  | blocked w => exact h
  | fault => trivial

@[simp] theorem preserves_pure (a : α) : Preserves I (pure a : Prog L M α) := fun _ h => h

@[simp] theorem Preserves.bind (hp : Preserves I p) (hf : ∀ a, Preserves I (f a)) : Preserves I (p >>= f) :=
  fun w h => (hp w h).bind hf

theorem Preserves.ite {c : Prop} [Decidable c] (hp : c → Preserves I p) (hq : ¬ c → Preserves I q) :
    Preserves I (if c then p else q) := by
  split
  · exact hp ‹_›
  · exact hq ‹_›

@[simp] theorem preserves_read (g : M → α) : Preserves I (read g : Prog L M α) := fun _ h => h

@[simp] theorem preserves_checked (o : Option α) : Preserves I (checked o : Prog L M α) := by
  intro w h
  cases o with
  | none => trivial
  | some a => exact h

/-- Nobody holds the mutex. -/
def IsFree (l : L) (w : World L M) : Prop := w.held l = false

@[simp] theorem preserves_write {l : L} (g : M → M) : Preserves (IsFree l) (write g : Prog L M Unit) := fun _ h => h

end Preserves

variable [DecidableEq L]

@[simp] theorem run_unlock (l : L) (w : World L M) : unlock l w = .ret () (w.release l) := rfl

theorem run_lock {l : L} {w : World L M} (h : w.held l = false) : lock l w = .ret () (w.acquire l) := by
  simp [lock, h]

theorem run_lock_held {l : L} {w : World L M} (h : w.held l = true) : lock l w = .blocked w := by
  simp [lock, h]

/-- What starts by locking a mutex that is held does nothing. -/
theorem preserves_lock_held {I : World L M → Prop} {l : L} (h : ∀ w, I w → w.held l = true) (f : Unit → Prog L M α) :
    Preserves I (lock l >>= f) := by
  intro w hw
  rw [run_bind, run_lock_held (h w hw)]
  exact hw

theorem preserves_lock {k l : L} (hkl : l ≠ k) : Preserves (IsFree l) (lock k : Prog L M Unit) := by
  intro w h
  cases hk : w.held k with
  | true =>
    rw [run_lock_held hk]
    exact h
  | false =>
    rw [run_lock hk]
    exact (w.held_acquire_of_ne hkl).trans h

@[simp] theorem preserves_unlock {k l : L} : Preserves (IsFree l) (unlock k : Prog L M Unit) := by
  intro w h
  by_cases hkl : l = k
  · subst hkl
    simp [Outcome.All, IsFree, World.release]
  · simpa [Outcome.All, IsFree, World.release, hkl] using h

end LockProg
