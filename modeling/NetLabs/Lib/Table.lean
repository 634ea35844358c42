import Mathlib.Data.List.Basic
import Mathlib.Data.List.Perm.Subperm

/-!
# Tables searched by a key

A table is a list of records, searched from the front for a key and changed in place.  A change that keeps the keys
keeps the result of every search (`search_modify`, `search_map`), and it moves a count by what it does to one record
(`countP_modify`).
-/

namespace Table

variable {α κ : Type*} {key : α → κ} {l : List α} {k : κ} {i j : Nat} {a b : α} {f : α → α} {p : α → Bool}

/-! ### Changing one record -/

theorem mem_modify (hi : l[i]? = some a) (hb : b ∈ l.modify i f) : b ∈ l ∨ b = f a := by
  obtain ⟨j, hj⟩ := List.mem_iff_getElem?.1 hb
  by_cases hij : i = j
  · subst hij
    rw [List.getElem?_modify_eq, hi, Option.map_eq_map, Option.map_some, Option.some.injEq] at hj
    exact Or.inr hj.symm
  · rw [List.getElem?_modify_ne _ _ hij] at hj
    exact Or.inl (List.mem_of_getElem? hj)

theorem countP_modify (hi : l[i]? = some a) :
    (l.modify i f).countP p + (if p a then 1 else 0) = l.countP p + (if p (f a) then 1 else 0) := by
  induction l generalizing i with
  | nil => cases hi
  | cons x l ih =>
    cases i with
    | zero =>
      cases hi
      simp only [List.modify_zero_cons, List.countP_cons]
      omega
    | succ i =>
      have := ih hi
      simp only [List.modify_succ_cons, List.countP_cons]
      omega

/-- When only one record has a property, filtering by it leaves this record. -/
theorem filter_eq_singleton (hi : l[i]? = some a) (ha : p a = true)
    (honly : ∀ j b, l[j]? = some b → p b = true → j = i) : l.filter p = [a] := by
  induction l generalizing i with
  | nil => cases hi
  | cons x l ih =>
    cases i with
    | zero =>
      cases hi
      rw [List.filter_cons_of_pos ha, List.filter_eq_nil_iff.2]
      intro b hb hpb
      obtain ⟨j, hj⟩ := List.mem_iff_getElem?.1 hb
      exact absurd (honly (j + 1) b hj hpb) (Nat.succ_ne_zero j)
    | succ i =>
      have hx : ¬ p x = true := fun hx => absurd (honly 0 x rfl hx) (Nat.succ_ne_zero i).symm
      rw [List.filter_cons_of_neg hx]
      exact ih hi fun j b hj hb => Nat.succ.inj (honly (j + 1) b hj hb)

/-- A stricter filter keeps the same records exactly when it asks for nothing new. -/
theorem map_filter_eq_iff {β : Type*} {g : α → β} {q : α → Bool} :
    (l.filter p).map g = (l.filter fun a => q a && p a).map g ↔ ∀ a ∈ l, p a = true → q a = true := by
  constructor
  · intro h a ha hpa
    have hlen := congrArg List.length h
    rw [List.length_map, List.length_map, ← List.filter_filter] at hlen
    exact List.length_filter_eq_length_iff.1 hlen.symm a (List.mem_filter.2 ⟨ha, hpa⟩)
  · intro h
    congr 1
    apply List.filter_congr
    intro a ha
    cases hpa : p a with
    | false => rw [Bool.and_false]
    | true => rw [h a ha hpa, Bool.and_true]

/-! ### Changing every record -/

/-- The records of two tables are related position by position. -/
structure Pointwise (R : Nat → α → α → Prop) (l l' : List α) : Prop where
  length_eq : l'.length = l.length
  get : ∀ k a, l[k]? = some a → ∃ a', l'[k]? = some a' ∧ R k a a'

namespace Pointwise

variable {R R' : Nat → α → α → Prop} {l' l'' : List α}

theorem refl (h : ∀ k a, l[k]? = some a → R k a a) : Pointwise R l l :=
  ⟨rfl, fun k a hk => ⟨a, hk, h k a hk⟩⟩

theorem mono (h : Pointwise R l l') (hR : ∀ k a a', l[k]? = some a → R k a a' → R' k a a') : Pointwise R' l l' := by
  refine ⟨h.length_eq, fun k a hk => ?_⟩
  obtain ⟨a', hk', hr⟩ := h.get k a hk
  exact ⟨a', hk', hR k a a' hk hr⟩

/-- The change of one record. -/
theorem modify (hi : l[i]? = some a) (hself : R i a (f a)) (hother : ∀ k b, l[k]? = some b → k ≠ i → R k b b) :
    Pointwise R l (l.modify i f) := by
  refine ⟨List.length_modify f l i, fun k b hk => ?_⟩
  by_cases hik : i = k
  · subst hik
    obtain rfl : a = b := Option.some.inj (hi.symm.trans hk)
    exact ⟨f a, by rw [List.getElem?_modify_eq, hi, Option.map_eq_map, Option.map_some], hself⟩
  · exact ⟨b, by rw [List.getElem?_modify_ne _ _ hik, hk], hother k b hk (Ne.symm hik)⟩

theorem map (h : ∀ k a, l[k]? = some a → R k a (f a)) : Pointwise R l (l.map f) := by
  refine ⟨List.length_map f, fun k a hk => ⟨f a, ?_, h k a hk⟩⟩
  rw [List.getElem?_map, hk, Option.map_some]

theorem mapIdx {f : Nat → α → α} (h : ∀ k a, l[k]? = some a → R k a (f k a)) : Pointwise R l (l.mapIdx f) := by
  refine ⟨List.length_mapIdx, fun k a hk => ⟨f k a, ?_, h k a hk⟩⟩
  rw [List.getElem?_mapIdx, hk, Option.map_some]

/-- Two changes, one after the other. -/
theorem comp (h : Pointwise R l l') (h' : Pointwise R' l' l'') :
    Pointwise (fun k a c => ∃ b, R k a b ∧ R' k b c) l l'' := by
  refine ⟨h'.length_eq.trans h.length_eq, fun k a hk => ?_⟩
  obtain ⟨b, hb, hab⟩ := h.get k a hk
  obtain ⟨c, hc, hbc⟩ := h'.get k b hb
  exact ⟨c, hc, b, hab, hbc⟩

/-- A property that no record gains is not counted more often. -/
theorem countP_le (h : Pointwise R l l') (hp : ∀ k a a', R k a a' → p a' = true → p a = true) :
    l'.countP p ≤ l.countP p := by
  induction l generalizing l' R with
  | nil =>
    obtain rfl : l' = [] := List.length_eq_zero_iff.1 h.length_eq
    exact Nat.le_refl _
  | cons x l ih =>
    obtain ⟨y, hy, hxy⟩ := h.get 0 x rfl
    cases l' with
    | nil => cases hy
    | cons y' l' =>
      obtain rfl : y' = y := Option.some.inj hy
      have htail : Pointwise (fun k => R (k + 1)) l l' :=
        ⟨Nat.succ.inj h.length_eq, fun k a hk => h.get (k + 1) a hk⟩
      have hle := ih htail fun k a a' hr => hp (k + 1) a a' hr
      have hhead := hp 0 x y' hxy
      simp only [List.countP_cons]
      split
      · rename_i hy
        rw [if_pos (hhead hy)]
        omega
      · omega

theorem symm (h : Pointwise R l l') : Pointwise (fun k a a' => R k a' a) l' l := by
  refine ⟨h.length_eq.symm, fun k b hk => ?_⟩
  have hlt : k < l.length := h.length_eq ▸ (List.getElem?_eq_some_iff.1 hk).1
  obtain ⟨c, hc, hr⟩ := h.get k _ (List.getElem?_eq_getElem hlt)
  obtain rfl : c = b := Option.some.inj (hc.symm.trans hk)
  exact ⟨_, List.getElem?_eq_getElem hlt, hr⟩

theorem of_mem (h : Pointwise R l l') {b : α} (hb : b ∈ l') : ∃ k a, l[k]? = some a ∧ R k a b := by
  obtain ⟨k, hk⟩ := List.mem_iff_getElem?.1 hb
  exact ⟨k, h.symm.get k b hk⟩

/-- What no record changes is the same everywhere. -/
theorem map_eq {β : Type*} {g : α → β} (h : Pointwise R l l') (hg : ∀ k a a', R k a a' → g a' = g a) :
    l'.map g = l.map g := by
  apply List.ext_getElem?
  intro j
  rw [List.getElem?_map, List.getElem?_map]
  cases hj : l[j]? with
  | none =>
    have hlen : l'.length ≤ j := by
      rw [h.length_eq]
      exact List.getElem?_eq_none_iff.1 hj
    rw [List.getElem?_eq_none hlen]
  | some a =>
    obtain ⟨a', ha', hr⟩ := h.get j a hj
    rw [ha', Option.map_some, Option.map_some, hg j a a' hr]

theorem countP_eq (h : Pointwise R l l') (hp : ∀ k a a', R k a a' → p a' = p a) : l'.countP p = l.countP p := by
  have hcount : ∀ l : List α, l.countP p = (l.map p).countP id := by
    intro l
    rw [List.countP_map]
    rfl
  rw [hcount, hcount, h.map_eq hp]

end Pointwise

/-! ### Searching -/

variable [DecidableEq κ]

/-- The first position of a key. -/
def search (key : α → κ) (l : List α) (k : κ) : Option Nat := l.findIdx? fun a => key a = k

/-- The first record with key `k` is `a`, at position `i`. -/
structure At (key : α → κ) (l : List α) (k : κ) (i : Nat) (a : α) : Prop where
  found : search key l k = some i
  get : l[i]? = some a

theorem search_map (hf : ∀ a ∈ l, key (f a) = key a) : search key (l.map f) k = search key l k := by
  simp only [search, List.findIdx?_map]
  induction l with
  | nil => rfl
  | cons x l ih =>
    have hx := hf x (by simp)
    have := ih fun a ha => hf a (by simp [ha])
    simp only [List.findIdx?_cons, Function.comp_apply, hx, this]

theorem search_modify (hf : ∀ a, key (f a) = key a) : search key (l.modify i f) k = search key l k := by
  induction l generalizing i with
  | nil => cases i <;> rfl
  | cons x l ih =>
    cases i with
    | zero => simp only [List.modify_zero_cons, search, List.findIdx?_cons, hf]
    | succ i =>
      have := @ih i
      simp only [search] at this
      simp only [List.modify_succ_cons, search, List.findIdx?_cons, this]

/-- A search sees the keys only. -/
theorem search_congr {l' : List α} (h : l.map key = l'.map key) : search key l k = search key l' k := by
  have hmap : ∀ l : List α, search key l k = (l.map key).findIdx? fun x => x = k := by
    intro l
    rw [List.findIdx?_map]
    rfl
  rw [hmap, hmap, h]

theorem search_append_some {t : List α} (h : search key l k = some i) : search key (l ++ t) k = some i := by
  simp only [search] at h
  simp [search, List.findIdx?_append, h]

theorem search_append_none {t : List α} (h : search key l k = none) :
    search key (l ++ t) k = (search key t k).map (· + l.length) := by
  simp only [search] at h
  simp [search, List.findIdx?_append, h]

theorem exists_at (h : search key l k = some i) : ∃ a, At key l k i a := by
  obtain ⟨hlt, -⟩ := List.findIdx?_eq_some_iff_getElem.1 h
  exact ⟨l[i], h, by simp [hlt]⟩

theorem search_ne_none (ha : a ∈ l) : search key l (key a) ≠ none := by
  intro h
  have := List.findIdx?_eq_none_iff.1 h a ha
  simp at this

theorem search_eq_none (h : search key l k = none) (ha : a ∈ l) : key a ≠ k := by
  rintro rfl
  exact search_ne_none ha h

/-- A table lacks one of any greater number of keys. -/
theorem exists_search_none {keys : List κ} (hnodup : keys.Nodup) (hlt : l.length < keys.length) :
    ∃ k ∈ keys, search key l k = none := by
  by_contra hall
  push Not at hall
  have hsub : keys ⊆ l.map key := by
    intro k hk
    obtain ⟨i, hi⟩ := Option.ne_none_iff_exists'.1 (hall k hk)
    obtain ⟨hlen, hp, -⟩ := List.findIdx?_eq_some_iff_getElem.1 hi
    rw [← of_decide_eq_true hp]
    exact List.mem_map_of_mem (List.getElem_mem hlen)
  have hle := (hnodup.subperm hsub).length_le
  rw [List.length_map] at hle
  omega

namespace At

theorem key_eq (h : At key l k i a) : key a = k := by
  obtain ⟨hlt, hp, -⟩ := List.findIdx?_eq_some_iff_getElem.1 h.found
  have : l[i] = a := by
    have := h.get
    rwa [List.getElem?_eq_getElem hlt, Option.some.injEq] at this
  simpa [this] using hp

theorem mem (h : At key l k i a) : a ∈ l := List.mem_of_getElem? h.get

theorem unique (h : At key l k i a) (h' : At key l k j b) : i = j ∧ a = b := by
  have hij : i = j := Option.some.inj (h.found.symm.trans h'.found)
  subst hij
  exact ⟨rfl, Option.some.inj (h.get.symm.trans h'.get)⟩

theorem exists_iff {q : α → Prop} (h : At key l k i a) : (∃ j b, At key l k j b ∧ q b) ↔ q a := by
  constructor
  · rintro ⟨j, b, hb, hq⟩
    obtain ⟨-, rfl⟩ := h.unique hb
    exact hq
  · intro hq
    exact ⟨i, a, h, hq⟩

/-- Records with different keys stand at different positions. -/
theorem ne {k' : κ} (h : At key l k i a) (h' : At key l k' j b) (hk : k ≠ k') : i ≠ j := by
  rintro rfl
  have hab : a = b := Option.some.inj (h.get.symm.trans h'.get)
  exact hk (h.key_eq.symm.trans (hab ▸ h'.key_eq))

theorem modify_self (h : At key l k i a) (hf : ∀ a, key (f a) = key a) : At key (l.modify i f) k i (f a) :=
  ⟨by rw [search_modify hf, h.found], by rw [List.getElem?_modify_eq, h.get, Option.map_eq_map, Option.map_some]⟩

theorem modify_ne (h : At key l k i a) (hf : ∀ a, key (f a) = key a) (hij : j ≠ i) : At key (l.modify j f) k i a :=
  ⟨by rw [search_modify hf, h.found], by rw [List.getElem?_modify_ne _ _ hij, h.get]⟩

theorem map (h : At key l k i a) (hf : ∀ a, key (f a) = key a) : At key (l.map f) k i (f a) :=
  ⟨by rw [search_map fun a _ => hf a, h.found], by rw [List.getElem?_map, h.get, Option.map_some]⟩

/-- A search finds the record at the place where it was when every record has kept its key. -/
theorem pointwise {R : Nat → α → α → Prop} {l' : List α} (h : At key l k i a) (hl : Pointwise R l l')
    (hR : ∀ k a a', R k a a' → key a' = key a) : ∃ a', At key l' k i a' ∧ R i a a' := by
  obtain ⟨a', hget, hr⟩ := hl.get i a h.get
  refine ⟨a', ⟨?_, hget⟩, hr⟩
  rw [← h.found]
  exact search_congr (hl.map_eq hR)

/-- A record appended under a new key. -/
theorem append_new (h : search key l k = none) (ha : key a = k) : At key (l ++ [a]) k l.length a := by
  have hlast : search key [a] k = some 0 := by simp [search, ha]
  refine ⟨?_, by simp⟩
  rw [search_append_none h, hlast]
  simp

theorem append (h : At key l k i a) (t : List α) : At key (l ++ t) k i a := by
  refine ⟨search_append_some h.found, ?_⟩
  obtain ⟨hlt, -⟩ := List.findIdx?_eq_some_iff_getElem.1 h.found
  rw [List.getElem?_append_left hlt, h.get]

end At

end Table
