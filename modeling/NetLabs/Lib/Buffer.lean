import Mathlib.Data.List.Basic

/-!
# Arrays that are filled from the front

An allocated array, the number of its slots that are in use, and the loops over these.  As long as the slots in use hold a
list (`Holds`), a loop over them does what the function on lists does, and nothing but appending to a full array is
undefined (`Holds.push`, `push_full`).
-/

/-- The slots, those without a value among them, and how many are in use. -/
structure Buffer (α : Type*) where
  slots : List (Option α)
  count : Nat

namespace Buffer

variable {α β σ : Type*}

/-- Nothing has been written to the slots yet. -/
def alloc (capacity : Nat) : Buffer α := ⟨List.replicate capacity none, 0⟩

/-- `a[i]`, undefined outside the array and where nothing has been written. -/
def get (b : Buffer α) (i : Nat) : Option α := (b.slots[i]?).join

/-- `a[i] = x`, undefined outside the array. -/
def put (b : Buffer α) (i : Nat) (x : α) : Option (Buffer α) :=
  if i < b.slots.length then some { b with slots := b.slots.set i (some x) } else none

/-- The loop over `n` indices from `i` on. -/
def forLoop (body : Nat → σ → Option σ) : Nat → Nat → σ → Option σ
  | 0, _, s => some s
  | n + 1, i, s => (body i s).bind (forLoop body n (i + 1))

/-- The loop that returns the first index whose value meets `p`. -/
def scan (b : Buffer α) (p : α → Bool) : Nat → Nat → Option (Option Nat)
  | 0, _ => some none
  | n + 1, i => (b.get i).bind fun a => if p a then some (some i) else scan b p n (i + 1)

/-- The loop that accumulates the values. -/
def fold (b : Buffer α) (f : β → α → β) (init : β) : Option β :=
  forLoop (fun i acc => (b.get i).map (f acc)) b.count 0 init

/-- Change one value. -/
def modify (b : Buffer α) (i : Nat) (f : α → α) : Option (Buffer α) := (b.get i).bind fun a => b.put i (f a)

/-- The loop that changes every value. -/
def mapInPlace (b : Buffer α) (f : α → α) : Option (Buffer α) := forLoop (fun i b => b.modify i f) b.count 0 b

/-- Append a value. -/
def push (b : Buffer α) (x : α) : Option (Buffer α) := (b.put b.count x).map fun b => { b with count := b.count + 1 }

/-- Overwrite a value, and move the ones behind it to the front. -/
def removeAt (b : Buffer α) (i : Nat) (blank : α) : Option (Buffer α) :=
  (b.put i blank).bind fun b =>
    (forLoop (fun j b => (b.get (j + 1)).bind (b.put j)) (b.count - 1 - i) i b).map fun b => { b with count := b.count - 1 }

/-- The slots in use hold the list. -/
structure Holds (capacity : Nat) (b : Buffer α) (l : List α) : Prop where
  count_eq : b.count = l.length
  slots : ∃ rest, b.slots = l.map some ++ rest
  length_eq : b.slots.length = capacity

/-- A loop keeps what its body keeps. -/
theorem forLoop_rule {body : Nat → σ → Option σ} {P : Nat → σ → Prop} {n i : Nat} {s : σ} (h0 : P i s)
    (hstep : ∀ j s, i ≤ j → j < i + n → P j s → ∃ s', body j s = some s' ∧ P (j + 1) s') :
    ∃ s', forLoop body n i s = some s' ∧ P (i + n) s' := by
  induction n generalizing i s with
  | zero => exact ⟨s, rfl, h0⟩
  | succ n ih =>
    obtain ⟨s₁, hbody, hs₁⟩ := hstep i s (Nat.le_refl i) (by omega) h0
    obtain ⟨s₂, hloop, hs₂⟩ := ih hs₁ fun j s hj hlt => hstep j s (by omega) (by omega)
    refine ⟨s₂, by rw [forLoop, hbody, Option.bind_some, hloop], ?_⟩
    rwa [show i + (n + 1) = i + 1 + n by omega]

section Holds

variable {capacity i : Nat} {b b' : Buffer α} {l : List α} {x : α} {f : α → α} {p : α → Bool}

theorem holds_alloc (capacity : Nat) : (alloc capacity : Buffer α).Holds capacity [] :=
  ⟨rfl, ⟨_, rfl⟩, List.length_replicate⟩

theorem Holds.length_le (h : b.Holds capacity l) : l.length ≤ capacity := by
  obtain ⟨rest, hrest⟩ := h.slots
  rw [← h.length_eq, hrest, List.length_append, List.length_map]
  exact Nat.le_add_right _ _

theorem Holds.get (h : b.Holds capacity l) (hi : i < l.length) : b.get i = some l[i] := by
  obtain ⟨rest, hrest⟩ := h.slots
  rw [Buffer.get, hrest, List.getElem?_append_left (by rwa [List.length_map]), List.getElem?_map,
    List.getElem?_eq_getElem hi]
  rfl

theorem Holds.put (h : b.Holds capacity l) (hi : i < l.length) (x : α) :
    ∃ b', b.put i x = some b' ∧ b'.Holds capacity (l.set i x) := by
  obtain ⟨rest, hrest⟩ := h.slots
  have hlt : i < b.slots.length := by
    have := h.length_le
    have := h.length_eq
    omega
  refine ⟨_, if_pos hlt, ?_, ⟨rest, ?_⟩, ?_⟩
  · rw [List.length_set]
    exact h.count_eq
  · show b.slots.set i (some x) = _
    rw [hrest, List.set_append_left _ _ (by rwa [List.length_map]), List.map_set]
  · show (b.slots.set i (some x)).length = _
    rw [List.length_set, h.length_eq]

theorem Holds.modify (h : b.Holds capacity l) (hi : i < l.length) (f : α → α) :
    ∃ b', b.modify i f = some b' ∧ b'.Holds capacity (l.modify i f) := by
  obtain ⟨b', hput, hb'⟩ := h.put hi (f l[i])
  refine ⟨b', by rw [Buffer.modify, h.get hi, Option.bind_some, hput], ?_⟩
  rwa [List.modify_eq_set_getElem?, List.getElem?_eq_getElem hi]

/-- There is room for another value. -/
theorem Holds.push (h : b.Holds capacity l) (hroom : l.length < capacity) (x : α) :
    ∃ b', b.push x = some b' ∧ b'.Holds capacity (l ++ [x]) := by
  obtain ⟨rest, hrest⟩ := h.slots
  have hlt : b.count < b.slots.length := by rw [h.count_eq, h.length_eq]; exact hroom
  refine ⟨{ slots := b.slots.set b.count (some x), count := b.count + 1 }, ?_, ?_, ?_, ?_⟩
  · rw [Buffer.push, Buffer.put, if_pos hlt, Option.map_some]
  · show b.count + 1 = _
    rw [List.length_append, List.length_singleton, h.count_eq]
  · obtain ⟨y, rest, rfl⟩ : ∃ y rest', rest = y :: rest' := by
      refine List.exists_cons_of_ne_nil fun hnil => ?_
      rw [hrest, hnil, List.append_nil, List.length_map, h.count_eq] at hlt
      exact Nat.lt_irrefl _ hlt
    refine ⟨rest, ?_⟩
    show b.slots.set b.count (some x) = _
    rw [hrest, h.count_eq, List.set_append_right _ _ (Nat.le_of_eq (List.length_map _)), List.length_map, Nat.sub_self,
      List.set_cons_zero, List.map_append, List.append_assoc]
    rfl
  · show (b.slots.set b.count (some x)).length = _
    rw [List.length_set, h.length_eq]

/-- There is no room. -/
theorem Holds.push_full (h : b.Holds capacity l) (hfull : capacity ≤ l.length) (x : α) : b.push x = none := by
  rw [Buffer.push, Buffer.put, if_neg (by rw [h.count_eq, h.length_eq]; omega), Option.map_none]

/-- The last slot in use is given up. -/
theorem Holds.take (h : b.Holds capacity l) {n : Nat} (hn : n + 1 = l.length) :
    Holds capacity { b with count := b.count - 1 } (l.take n) := by
  obtain ⟨rest, hrest⟩ := h.slots
  refine ⟨?_, ⟨(l.drop n).map some ++ rest, ?_⟩, h.length_eq⟩
  · show b.count - 1 = _
    rw [h.count_eq, List.length_take]
    omega
  · rw [← List.append_assoc, ← List.map_append, List.take_append_drop]
    exact hrest

/-! ### Loops -/

theorem Holds.scan_from (h : b.Holds capacity l) {n : Nat} (hn : i + n = l.length) :
    b.scan p n i = some (((l.drop i).findIdx? p).map (· + i)) := by
  induction n generalizing i with
  | zero =>
    rw [List.drop_eq_nil_of_le (by omega)]
    rfl
  | succ n ih =>
    have hi : i < l.length := by omega
    rw [Buffer.scan, h.get hi, Option.bind_some, ih (by omega), List.drop_eq_getElem_cons hi, List.findIdx?_cons]
    split
    · simp
    · cases (l.drop (i + 1)).findIdx? p <;> simp
      omega

theorem Holds.scan (h : b.Holds capacity l) : b.scan p b.count 0 = some (l.findIdx? p) := by
  rw [h.scan_from (by rw [h.count_eq, Nat.zero_add]), List.drop_zero]
  simp

theorem Holds.fold {f : β → α → β} {init : β} (h : b.Holds capacity l) : b.fold f init = some (l.foldl f init) := by
  have hloop : ∃ acc, forLoop (fun i acc => (b.get i).map (f acc)) l.length 0 init = some acc ∧
      acc = (l.take (0 + l.length)).foldl f init := by
    refine forLoop_rule (P := fun j acc => acc = (l.take j).foldl f init) rfl ?_
    rintro j _ - hj rfl
    rw [Nat.zero_add] at hj
    refine ⟨_, by rw [h.get hj, Option.map_some], ?_⟩
    rw [List.take_succ_eq_append_getElem hj, List.foldl_append]
    rfl
  obtain ⟨acc, hacc, rfl⟩ := hloop
  rw [Buffer.fold, h.count_eq, hacc, Nat.zero_add, List.take_length]

/-- The values before index `j` are changed. -/
def MappedTo (capacity : Nat) (l : List α) (f : α → α) (j : Nat) (b : Buffer α) : Prop :=
  ∃ m, b.Holds capacity m ∧ m.length = l.length ∧ ∀ k, m[k]? = if k < j then (l[k]?).map f else l[k]?

theorem MappedTo.step {j : Nat} (h : MappedTo capacity l f j b) (hj : j < l.length) :
    ∃ b', b.modify j f = some b' ∧ MappedTo capacity l f (j + 1) b' := by
  obtain ⟨m, hm, hlen, hget⟩ := h
  obtain ⟨b', hmodify, hb'⟩ := hm.modify (show j < m.length by omega) f
  refine ⟨b', hmodify, _, hb', by rw [List.length_modify, hlen], fun k => ?_⟩
  rw [List.getElem?_modify, hget]
  by_cases hkj : j = k
  · subst hkj
    simp
  · have hlt : k < j + 1 ↔ k < j := by omega
    simp [hkj, hlt]

theorem Holds.mapInPlace (h : b.Holds capacity l) (f : α → α) :
    ∃ b', b.mapInPlace f = some b' ∧ b'.Holds capacity (l.map f) := by
  have hstart : MappedTo capacity l f 0 b := ⟨l, h, rfl, fun k => by rw [if_neg (Nat.not_lt_zero k)]⟩
  obtain ⟨b', hloop, m, hm, hlen, hget⟩ := forLoop_rule (n := l.length) hstart fun j b' _ hj hb' =>
    hb'.step (by omega)
  refine ⟨b', by rw [Buffer.mapInPlace, h.count_eq, hloop], ?_⟩
  have hmap : m = l.map f := by
    refine List.ext_getElem? fun k => ?_
    rw [hget, List.getElem?_map]
    split
    · rfl
    · rw [List.getElem?_eq_none (by omega)]
      rfl
  rwa [← hmap]

/-- The values from index `i` on have moved to the front, up to the one at index `j`. -/
def ShiftedTo (capacity : Nat) (l : List α) (i j : Nat) (b : Buffer α) : Prop :=
  ∃ m, b.Holds capacity m ∧ m.length = l.length ∧
    ∀ k, k ≠ j → m[k]? = if k < i then l[k]? else if k < j then l[k + 1]? else l[k]?

theorem ShiftedTo.step {j : Nat} (h : ShiftedTo capacity l i j b) (hij : i ≤ j) (hj : j + 1 < l.length) :
    ∃ b', (b.get (j + 1)).bind (b.put j) = some b' ∧ ShiftedTo capacity l i (j + 1) b' := by
  obtain ⟨m, hm, hlen, hget⟩ := h
  obtain ⟨b', hput, hb'⟩ := hm.put (show j < m.length by omega) m[j + 1]
  refine ⟨b', by rw [hm.get (by omega), Option.bind_some, hput], _, hb', by rw [List.length_set, hlen], fun k hk => ?_⟩
  have hnext := hget (j + 1) (by omega)
  rw [if_neg (by omega), if_neg (by omega)] at hnext
  by_cases hkj : j = k
  · subst hkj
    rw [List.getElem?_set_self (by omega), if_neg (by omega), if_pos (by omega), ← hnext, List.getElem?_eq_getElem]
  · have hlt : k < j + 1 ↔ k < j := by omega
    rw [List.getElem?_set_ne hkj, hget k (Ne.symm hkj)]
    simp only [hlt]

theorem Holds.removeAt (h : b.Holds capacity l) (hi : i < l.length) (blank : α) :
    ∃ b', b.removeAt i blank = some b' ∧ b'.Holds capacity (l.eraseIdx i) := by
  obtain ⟨b₁, hput, hb₁⟩ := h.put hi blank
  have hstart : ShiftedTo capacity l i i b₁ := by
    refine ⟨_, hb₁, List.length_set, fun k hk => ?_⟩
    rw [List.getElem?_set_ne (Ne.symm hk)]
    split_ifs <;> rfl
  obtain ⟨b₂, hloop, m, hm, hlen, hget⟩ := forLoop_rule (n := l.length - 1 - i) hstart fun j b' hij hj hb' =>
    hb'.step hij (by omega)
  rw [show i + (l.length - 1 - i) = l.length - 1 by omega] at hget
  have hcount : b₁.count = l.length := by rw [hb₁.count_eq, List.length_set]
  have herase : l.eraseIdx i = m.take (l.length - 1) := by
    refine List.ext_getElem? fun k => ?_
    rw [List.getElem?_eraseIdx, List.getElem?_take]
    by_cases hk : k < l.length - 1
    · rw [if_pos hk, hget k (by omega)]
      simp only [hk, if_true]
    · have hnone : l[k + 1]? = none := List.getElem?_eq_none (by omega)
      rw [if_neg hk, if_neg (by omega), hnone]
  refine ⟨{ b₂ with count := b₂.count - 1 }, ?_, ?_⟩
  · rw [Buffer.removeAt, hput, Option.bind_some, hcount, hloop, Option.map_some]
  · rw [herase]
    exact hm.take (by omega)

end Holds

end Buffer
