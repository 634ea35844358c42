import NetLabs.Lib.Simulation
import NetLabs.Conferencing.User
import Mathlib.Data.Set.Card

/-!
# What the server is for

A session manager over arbitrary names, passwords and sessions.  It knows for each name the account, with whether its
user is online, and the seat, which is the session the user is in with the role there.  An action that is not allowed
changes nothing (`Manager.perform`).

A session never has two administrators, and who is alone in one is its administrator (`ruled_of_reachable`).  A session
loses and regains its administrator in one way each (`Manager.loses_iff`, `Manager.regains_iff`).
-/

namespace Conferencing

open Transition

variable {N P S : Type*}

/-! ### Seats -/

/-- For each name the session its user is in, with the role there. -/
abbrev Seating (N S : Type*) := N → Option (S × Role)

namespace Seating

def members (f : Seating N S) (s : S) : Set N := {n | ∃ r, f n = some (s, r)}

def admins (f : Seating N S) (s : S) : Set N := {n | f n = some (s, .admin)}

theorem admins_subset (f : Seating N S) (s : S) : f.admins s ⊆ f.members s := fun _ h => ⟨.admin, h⟩

/-- The user `n` is in the session `s`, and `k` is the only other one there. -/
def LeavesAlone (f : Seating N S) (n k : N) (s : S) : Prop := n ∈ f.members s ∧ n ≠ k ∧ f.members s = {n, k}

open Classical in
/-- The seats after the user `n` has left: who is left alone becomes the administrator. -/
noncomputable def vacate (f : Seating N S) (n : N) : Seating N S := fun k =>
  if k = n then none else if ∃ s, f.LeavesAlone n k s then (f k).map fun p => (p.1, .admin) else f k

section Update

variable [DecidableEq N] {f : Seating N S} {n k : N} {s : S} {seat : Option (S × Role)}

private theorem mem_members_update : k ∈ members (Function.update f n seat) s ↔
    k = n ∧ (∃ r, seat = some (s, r)) ∨ k ≠ n ∧ k ∈ members f s := by
  by_cases hk : k = n
  · subst hk
    simp [members]
  · simp [members, hk]

private theorem mem_admins_update : k ∈ admins (Function.update f n seat) s ↔
    k = n ∧ seat = some (s, .admin) ∨ k ≠ n ∧ k ∈ admins f s := by
  by_cases hk : k = n
  · subst hk
    simp [admins]
  · simp [admins, hk]

end Update

section Vacate

variable {f : Seating N S} {n k : N} {s : S}

theorem LeavesAlone.mem (h : f.LeavesAlone n k s) : k ∈ f.members s := by
  rw [h.2.2]
  exact Or.inr rfl

theorem mem_members_unique {s' : S} (h : k ∈ f.members s) (h' : k ∈ f.members s') : s = s' := by
  obtain ⟨r, hr⟩ := h
  obtain ⟨r', hr'⟩ := h'
  exact congrArg Prod.fst (Option.some.inj (hr.symm.trans hr'))

theorem not_mem_members (hn : f n = none) (s : S) : n ∉ f.members s := by
  rintro ⟨r, hr⟩
  cases hn.symm.trans hr

theorem vacate_self (f : Seating N S) (n : N) : f.vacate n n = none := if_pos rfl

theorem vacate_alone (h : f.LeavesAlone n k s) : f.vacate n k = some (s, .admin) := by
  obtain ⟨r, hr⟩ := h.mem
  simp only [vacate, if_neg h.2.1.symm, if_pos (Exists.intro s h), hr, Option.map_some]

theorem vacate_kept (hk : k ≠ n) (h : ∀ s, ¬ f.LeavesAlone n k s) : f.vacate n k = f k := by
  simp only [vacate, if_neg hk, if_neg (not_exists.2 h)]

private theorem mem_members_vacate : k ∈ members (f.vacate n) s ↔ k ≠ n ∧ k ∈ f.members s := by
  by_cases hk : k = n
  · subst hk
    simp [members, vacate_self]
  by_cases halone : ∃ s', f.LeavesAlone n k s'
  · obtain ⟨s', hs'⟩ := halone
    constructor
    · rintro ⟨r, hr⟩
      cases (vacate_alone hs').symm.trans hr
      exact ⟨hk, hs'.mem⟩
    · rintro ⟨-, h⟩
      obtain rfl := mem_members_unique hs'.mem h
      exact ⟨.admin, vacate_alone hs'⟩
  · simp [members, vacate_kept hk (not_exists.1 halone), hk]

private theorem members_vacate (f : Seating N S) (n : N) (s : S) : members (f.vacate n) s = f.members s \ {n} := by
  ext k
  rw [mem_members_vacate, Set.mem_sdiff, Set.mem_singleton_iff]
  exact and_comm

private theorem mem_admins_vacate : k ∈ admins (f.vacate n) s ↔ k ≠ n ∧ (k ∈ f.admins s ∨ f.LeavesAlone n k s) := by
  by_cases hk : k = n
  · subst hk
    simp [admins, vacate_self]
  by_cases halone : ∃ s', f.LeavesAlone n k s'
  · obtain ⟨s', hs'⟩ := halone
    constructor
    · intro h
      cases (vacate_alone hs').symm.trans h
      exact ⟨hk, Or.inr hs'⟩
    · rintro ⟨-, h | h⟩
      · obtain rfl := mem_members_unique hs'.mem (f.admins_subset s h)
        exact vacate_alone hs'
      · exact vacate_alone h
  · have hsame : k ∈ admins (f.vacate n) s ↔ k ∈ f.admins s := by
      simp only [admins, Set.mem_ofPred_eq, vacate_kept hk (not_exists.1 halone)]
    rw [hsame]
    exact ⟨fun h => ⟨hk, Or.inl h⟩, fun h => h.2.resolve_right fun h => halone ⟨s, h⟩⟩

end Vacate

end Seating

/-! ### The manager -/

structure Manager (N P S : Type*) where
  account : N → Option (P × Status)
  seat : Seating N S

inductive Action (N P S : Type*)
  | register (n : N) (p : P)
  | login (n : N) (p : P)
  | create (n : N) (s : S)
  | join (n : N) (s : S)
  | inspect (s : S)
  | leave (n : N)
  | kick (n t : N)
  | promote (n t : N)
  | exit (n : N)
  deriving DecidableEq

namespace Manager

variable (m : Manager N P S)

def Online (n : N) : Prop := ∃ p, m.account n = some (p, .online)

/-- `n` is the administrator of a session in which `t` is an ordinary member. -/
def Commands (n t : N) : Prop := ∃ s, m.seat n = some (s, .admin) ∧ m.seat t = some (s, .user)

/-- When an action is allowed. -/
def Enabled : Action N P S → Prop
  | .register n _ => m.account n = none ∧ {k | m.account k ≠ none}.ncard < maxUserCount
  | .login n p => m.account n = some (p, .offline)
  | .create n s => m.Online n ∧ m.seat n = none ∧ m.seat.members s = ∅
  | .join n s => m.Online n ∧ m.seat n = none ∧ m.seat.members s ≠ ∅ ∧ (m.seat.members s).ncard < maxSessionUser
  | .inspect s => m.seat.members s ≠ ∅
  | .leave n => m.seat n ≠ none
  | .kick n t => m.Commands n t
  | .promote n t => m.Commands n t
  | .exit n => m.Online n

variable [DecidableEq N]

/-- What an action does when it is allowed. -/
noncomputable def effect : Action N P S → Manager N P S
  | .register n p => { m with account := Function.update m.account n (some (p, .online)) }
  | .login n p => { m with account := Function.update m.account n (some (p, .online)) }
  | .create n s => { m with seat := Function.update m.seat n (some (s, .admin)) }
  | .join n s => { m with seat := Function.update m.seat n (some (s, .user)) }
  | .inspect _ => m
  | .leave n => { m with seat := m.seat.vacate n }
  | .kick _ t => { m with seat := Function.update m.seat t none }
  | .promote n t => { m with seat := Function.update (Function.update m.seat t (m.seat n)) n (m.seat t) }
  | .exit n =>
    ⟨Function.update m.account n ((m.account n).map fun a => (a.1, .offline)), m.seat.vacate n⟩

open Classical in
/-- What an action does. -/
noncomputable def perform (a : Action N P S) : Manager N P S := if m.Enabled a then m.effect a else m

end Manager

/-- The manager as a transition system: at the start nobody is online. -/
def manager (N P S : Type*) [DecidableEq N] : System (Manager N P S) (Action N P S) where
  init m := (∀ n, ¬ m.Online n) ∧ ∀ n, m.seat n = none
  step m a m' := m.Enabled a ∧ m' = m.effect a

/-! ### Administrators -/

/-- One session: two users are not both its administrator, and who is alone in it is. -/
structure Seating.Ruled (f : Seating N S) (s : S) : Prop where
  one : (f.admins s).Subsingleton
  alone : ∀ n, f.members s = {n} → n ∈ f.admins s

namespace Seating

variable {f : Seating N S} {n t : N} {s s' : S}

theorem Ruled.congr {g : Seating N S} (h : f.Ruled s) (hm : g.members s = f.members s)
    (ha : g.admins s = f.admins s) : g.Ruled s :=
  ⟨by rw [ha]; exact h.one, by rw [hm, ha]; exact h.alone⟩

theorem Ruled.vacate (h : f.Ruled s) (n : N) : (f.vacate n).Ruled s := by
  constructor
  · intro k hk k' hk'
    rw [mem_admins_vacate] at hk hk'
    -- whoever is left alone is the only member that stays
    have hlast : ∀ {j j' : N}, j' ≠ n → j' ∈ f.members s → f.LeavesAlone n j s → j' = j := by
      intro j j' hne hmem hj
      rw [hj.2.2] at hmem
      exact hmem.resolve_left hne
    rcases hk.2 with ha | hl
    · rcases hk'.2 with ha' | hl'
      · exact h.one ha ha'
      · exact hlast hk.1 (f.admins_subset s ha) hl'
    · exact (hlast hk'.1 (hk'.2.elim (f.admins_subset s ·) LeavesAlone.mem) hl).symm
  · intro k hk
    rw [members_vacate] at hk
    have hmem : k ∈ f.members s ∧ k ≠ n := by
      have : k ∈ f.members s \ {n} := by rw [hk]; rfl
      simpa using this
    rw [mem_admins_vacate]
    refine ⟨hmem.2, ?_⟩
    by_cases hn : n ∈ f.members s
    · refine Or.inr ⟨hn, hmem.2.symm, ?_⟩
      rw [← Set.insert_sdiff_self_of_mem hn, hk]
    · rw [Set.sdiff_singleton_eq_self hn] at hk
      exact Or.inl (h.alone k hk)

variable [DecidableEq N]

private theorem members_update_other {seat : Option (S × Role)} (hseat : ∀ r, seat ≠ some (s', r))
    (hn : n ∉ f.members s') :
    members (Function.update f n seat) s' = f.members s' := by
  ext k
  rw [mem_members_update]
  constructor
  · rintro (⟨-, r, hr⟩ | ⟨-, h⟩)
    · exact absurd hr (hseat r)
    · exact h
  · intro h
    exact Or.inr ⟨fun hk => hn (hk ▸ h), h⟩

private theorem admins_update_other {seat : Option (S × Role)} (hseat : seat ≠ some (s', .admin))
    (hn : n ∉ f.admins s') :
    admins (Function.update f n seat) s' = f.admins s' := by
  ext k
  rw [mem_admins_update]
  constructor
  · rintro (⟨-, hr⟩ | ⟨-, h⟩)
    · exact absurd hr hseat
    · exact h
  · intro h
    exact Or.inr ⟨fun hk => hn (hk ▸ h), h⟩

theorem Ruled.create (h : f.Ruled s') (hn : f n = none) (hs : f.members s = ∅) :
    Ruled (Function.update f n (some (s, .admin))) s' := by
  by_cases heq : s' = s
  · subst heq
    have hmem : members (Function.update f n (some (s', .admin))) s' = {n} := by
      ext k
      simp [mem_members_update, hs]
    have hadm : admins (Function.update f n (some (s', .admin))) s' = {n} := by
      have hnone : f.admins s' = ∅ := Set.subset_empty_iff.1 (hs ▸ f.admins_subset s')
      ext k
      simp [mem_admins_update, hnone]
    refine ⟨by rw [hadm]; exact Set.subsingleton_singleton, fun k hk => ?_⟩
    rw [hmem, Set.singleton_eq_singleton_iff] at hk
    rw [hadm, hk]
    rfl
  · have hne : ∀ r r' : Role, some (s, r) ≠ some (s', r') := fun r r' h => heq (Prod.mk.inj (Option.some.inj h)).1.symm
    have hout := not_mem_members hn s'
    exact h.congr (members_update_other (hne _) hout) (admins_update_other (hne _ _) fun ha => hout (f.admins_subset _ ha))

theorem Ruled.join (h : f.Ruled s') (hn : f n = none) (hs : f.members s ≠ ∅) :
    Ruled (Function.update f n (some (s, .user))) s' := by
  have hout := not_mem_members hn
  have hadm : ∀ s', admins (Function.update f n (some (s, .user))) s' = f.admins s' :=
    fun s' => admins_update_other (by simp) fun ha => hout s' (f.admins_subset _ ha)
  refine ⟨by rw [hadm]; exact h.one, fun k hk => ?_⟩
  by_cases heq : s' = s
  · -- the newcomer is not alone
    subst heq
    obtain ⟨j, hj⟩ := Set.nonempty_iff_ne_empty.2 hs
    have hjn : j ≠ n := fun hjn => hout s' (hjn ▸ hj)
    have hmem : ∀ i, i = n ∨ i ∈ f.members s' → i = k := by
      intro i hi
      have : i ∈ members (Function.update f n (some (s', .user))) s' := by
        rw [mem_members_update]
        by_cases hin : i = n
        · exact Or.inl ⟨hin, .user, rfl⟩
        · exact Or.inr ⟨hin, hi.resolve_left hin⟩
      rw [hk] at this
      exact this
    exact absurd ((hmem j (Or.inr hj)).trans (hmem n (Or.inl rfl)).symm) hjn
  · have hne : ∀ r, some (s, Role.user) ≠ some (s', r) := fun r h => heq (Prod.mk.inj (Option.some.inj h)).1.symm
    rw [members_update_other hne (hout s')] at hk
    rw [hadm]
    exact h.alone k hk

theorem Ruled.kick (h : f.Ruled s') (hn : f n = some (s, .admin)) (ht : f t = some (s, .user)) :
    Ruled (Function.update f t none) s' := by
  have hadm : admins (Function.update f t none) s' = f.admins s' := by
    apply admins_update_other (by simp)
    intro ha
    cases ht.symm.trans ha
  refine ⟨by rw [hadm]; exact h.one, fun k hk => ?_⟩
  rw [hadm]
  by_cases heq : s' = s
  · -- the administrator stays
    subst heq
    have hnt : n ≠ t := by
      rintro rfl
      cases hn.symm.trans ht
    have hmem : n ∈ members (Function.update f t none) s' := mem_members_update.2 (Or.inr ⟨hnt, .admin, hn⟩)
    rw [hk] at hmem
    obtain rfl : n = k := hmem
    exact hn
  · have hout : t ∉ f.members s' := fun hmem => heq (mem_members_unique hmem ⟨.user, ht⟩)
    rw [members_update_other (by simp) hout] at hk
    exact h.alone k hk

private theorem members_swap (hn : f n = some (s, .admin)) (ht : f t = some (s, .user)) (s' : S) :
    members (Function.update (Function.update f t (f n)) n (f t)) s' = f.members s' := by
  ext k
  rw [mem_members_update, mem_members_update]
  by_cases hkn : k = n
  · subst hkn
    simp [ht, members, hn]
  · by_cases hkt : k = t
    · subst hkt
      simp [hn, members, ht, hkn]
    · simp [hkn, hkt]

theorem Ruled.promote (h : f.Ruled s') (hn : f n = some (s, .admin)) (ht : f t = some (s, .user)) :
    Ruled (Function.update (Function.update f t (f n)) n (f t)) s' := by
  have hmem := members_swap hn ht s'
  have hnt : n ≠ t := by
    rintro rfl
    cases hn.symm.trans ht
  by_cases heq : s' = s
  · subst heq
    have hadm : admins (Function.update (Function.update f t (f n)) n (f t)) s' ⊆ {t} := by
      intro k hk
      rw [mem_admins_update, mem_admins_update] at hk
      rcases hk with ⟨-, hk⟩ | ⟨hkn, ⟨hkt, -⟩ | ⟨-, hk⟩⟩
      · cases ht.symm.trans hk
      · exact hkt
      · exact absurd (h.one hk hn) hkn
    refine ⟨Set.subsingleton_singleton.anti hadm, fun k hk => ?_⟩
    rw [hmem] at hk
    have hn' : n ∈ f.members s' := ⟨_, hn⟩
    have ht' : t ∈ f.members s' := ⟨_, ht⟩
    rw [hk] at hn' ht'
    exact absurd (hn'.trans ht'.symm) hnt
  · have hne : ∀ r : Role, some (s, r) ≠ some (s', .admin) := fun r h => heq (Prod.mk.inj (Option.some.inj h)).1.symm
    refine h.congr hmem ?_
    rw [admins_update_other, admins_update_other]
    · rw [hn]
      exact hne _
    · intro ha
      exact hne _ (ht.symm.trans ha)
    · rw [ht]
      exact hne _
    · rw [mem_admins_update]
      rintro (⟨hnt', -⟩ | ⟨-, ha⟩)
      · exact hnt hnt'
      · exact hne _ (hn.symm.trans ha)

end Seating

variable [DecidableEq N] {m m' : Manager N P S}

private theorem Manager.ruled_effect {a : Action N P S} (ha : m.Enabled a) {s : S} (h : m.seat.Ruled s) :
    (m.effect a).seat.Ruled s := by
  cases a with
  | register n p => exact h
  | login n p => exact h
  | create n s' => exact h.create ha.2.1 ha.2.2
  | join n s' => exact h.join ha.2.1 ha.2.2.1
  | inspect s' => exact h
  | leave n => exact h.vacate n
  | kick n t =>
    obtain ⟨s', hn, ht⟩ := ha
    exact h.kick hn ht
  | promote n t =>
    obtain ⟨s', hn, ht⟩ := ha
    exact h.promote hn ht
  | exit n => exact h.vacate n

/-- Every session of every reachable manager is ruled. -/
theorem ruled_of_reachable (hr : Reachable (manager N P S) m) (s : S) : m.seat.Ruled s := by
  induction hr with
  | @init m h =>
    have hempty : m.seat.members s = ∅ := by
      ext k
      simp [Seating.members, h.2 k]
    have hadm : m.seat.admins s = ∅ := Set.subset_empty_iff.1 (hempty ▸ m.seat.admins_subset s)
    refine ⟨by rw [hadm]; exact Set.subsingleton_empty, fun k hk => ?_⟩
    rw [hempty] at hk
    exact absurd hk.symm (Set.singleton_ne_empty k)
  | step _ hst ih =>
    rw [hst.2]
    exact Manager.ruled_effect hst.1 ih

/-! ### Sessions without an administrator -/

/-- Somebody is in the session, and nobody is its administrator. -/
def Seating.Orphaned (f : Seating N S) (s : S) : Prop := (f.members s).Nonempty ∧ f.admins s = ∅

/-- The user that an action takes out of a session at that user's own wish. -/
def Action.leaver : Action N P S → Option N
  | .leave n => some n
  | .exit n => some n
  | _ => none

def Action.isKick : Action N P S → Bool
  | .kick _ _ => true
  | _ => false

namespace Seating

variable {f : Seating N S} {n t : N} {s s' : S}

omit [DecidableEq N] in
theorem Orphaned.congr {g : Seating N S} (hm : g.members s = f.members s) (ha : g.admins s = f.admins s) :
    g.Orphaned s ↔ f.Orphaned s := by
  rw [Orphaned, Orphaned, hm, ha]

omit [DecidableEq N] in
/-- After a departure nobody commands when several stay and none of them did before. -/
private theorem orphaned_vacate_iff : (f.vacate n).Orphaned s ↔ (f.members s \ {n}).Nonempty ∧ f.admins s ⊆ {n} ∧
    (n ∈ f.members s → (f.members s \ {n}).Nontrivial) := by
  rw [Orphaned, members_vacate]
  constructor
  · rintro ⟨hsome, hnone⟩
    have hout : ∀ k, k ≠ n → k ∉ f.admins s ∧ ¬ f.LeavesAlone n k s := by
      intro k hk
      have : k ∉ admins (f.vacate n) s := by rw [hnone]; exact Set.notMem_empty k
      rw [mem_admins_vacate, not_and, not_or] at this
      exact this hk
    refine ⟨hsome, fun k hk => by_contra fun hne => (hout k hne).1 hk, fun hn => ?_⟩
    obtain ⟨k, hk⟩ := hsome
    by_contra hfew
    have hall : f.members s \ {n} = {k} := (Set.not_nontrivial_iff.1 hfew).eq_singleton_of_mem hk
    refine (hout k hk.2).2 ⟨hn, fun h => hk.2 h.symm, ?_⟩
    rw [← Set.insert_sdiff_self_of_mem hn, hall]
  · rintro ⟨hsome, honly, hmany⟩
    refine ⟨hsome, Set.eq_empty_iff_forall_notMem.2 fun k hk => ?_⟩
    rw [mem_admins_vacate] at hk
    rcases hk.2 with ha | halone
    · exact hk.1 (honly ha)
    · refine (hmany halone.1).not_subsingleton ?_
      rw [halone.2.2]
      intro j hj j' hj'
      exact (hj.1.resolve_left hj.2).trans (hj'.1.resolve_left hj'.2).symm

end Seating

/-- Only a departure takes or gives a session its administrator. -/
private theorem Manager.orphaned_effect {a : Action N P S} (ha : m.Enabled a) (hstay : a.leaver = none) (s : S) :
    (m.effect a).seat.Orphaned s ↔ m.seat.Orphaned s := by
  cases a with
  | register n p => exact Iff.rfl
  | login n p => exact Iff.rfl
  | inspect s' => exact Iff.rfl
  | leave n => cases hstay
  | exit n => cases hstay
  | create n s' =>
    obtain ⟨-, hn, hs⟩ := ha
    have hout := Seating.not_mem_members hn s
    by_cases heq : s' = s
    · subst heq
      have hadm : n ∈ Seating.admins (Function.update m.seat n (some (s', .admin))) s' :=
        Seating.mem_admins_update.2 (Or.inl ⟨rfl, rfl⟩)
      refine iff_of_false (fun h => ?_) fun h => ?_
      · exact Set.notMem_empty n (h.2 ▸ hadm)
      · exact h.1.ne_empty hs
    · have hne : ∀ r r' : Role, some (s', r) ≠ some (s, r') := fun r r' h => heq (Prod.mk.inj (Option.some.inj h)).1
      exact Seating.Orphaned.congr (Seating.members_update_other (hne _) hout)
        (Seating.admins_update_other (hne _ _) fun h => hout (m.seat.admins_subset _ h))
  | join n s' =>
    obtain ⟨-, hn, hs, -⟩ := ha
    have hout := Seating.not_mem_members hn s
    have hadm : Seating.admins (Function.update m.seat n (some (s', .user))) s = m.seat.admins s :=
      Seating.admins_update_other (by simp) fun h => hout (m.seat.admins_subset _ h)
    by_cases heq : s' = s
    · subst heq
      have hsome : (Seating.members (Function.update m.seat n (some (s', .user))) s').Nonempty :=
        ⟨n, Seating.mem_members_update.2 (Or.inl ⟨rfl, .user, rfl⟩)⟩
      simp only [Seating.Orphaned, Manager.effect, hadm, hsome, Set.nonempty_iff_ne_empty.2 hs]
    · have hne : ∀ r, some (s', Role.user) ≠ some (s, r) := fun r h => heq (Prod.mk.inj (Option.some.inj h)).1
      exact Seating.Orphaned.congr (Seating.members_update_other hne hout) hadm
  | kick n t =>
    obtain ⟨s', hn, ht⟩ := ha
    have hadm : Seating.admins (Function.update m.seat t none) s = m.seat.admins s := by
      apply Seating.admins_update_other (by simp)
      intro h
      cases ht.symm.trans h
    by_cases heq : s' = s
    · subst heq
      have hnone : m.seat.admins s' ≠ ∅ := Set.nonempty_iff_ne_empty.1 ⟨n, hn⟩
      simp only [Seating.Orphaned, Manager.effect, hadm, hnone, and_false]
    · have hout : t ∉ m.seat.members s := fun h => heq (Seating.mem_members_unique ⟨.user, ht⟩ h)
      exact Seating.Orphaned.congr (Seating.members_update_other (by simp) hout) hadm
  | promote n t =>
    obtain ⟨s', hn, ht⟩ := ha
    have hmem := Seating.members_swap hn ht s
    have hnt : n ≠ t := by
      rintro rfl
      cases hn.symm.trans ht
    by_cases heq : s' = s
    · subst heq
      have hold : m.seat.admins s' ≠ ∅ := Set.nonempty_iff_ne_empty.1 ⟨n, hn⟩
      have hnew : Seating.admins (Function.update (Function.update m.seat t (m.seat n)) n (m.seat t)) s' ≠ ∅ := by
        refine Set.nonempty_iff_ne_empty.1 ⟨t, Seating.mem_admins_update.2 (Or.inr ⟨hnt.symm, ?_⟩)⟩
        exact Seating.mem_admins_update.2 (Or.inl ⟨rfl, hn⟩)
      simp only [Seating.Orphaned, Manager.effect, hold, hnew, and_false]
    · have hout : ∀ {k r}, m.seat k = some (s', r) → k ∉ m.seat.admins s :=
        fun hk h => heq (Seating.mem_members_unique ⟨_, hk⟩ (m.seat.admins_subset _ h))
      refine Seating.Orphaned.congr hmem ?_
      change Seating.admins (Function.update (Function.update m.seat t (m.seat n)) n (m.seat t)) s = _
      rw [Seating.admins_update_other (hout ht), Seating.admins_update_other (hout hn) (hout ht)]
      rw [Seating.mem_admins_update]
      rintro (⟨h, -⟩ | ⟨-, h⟩)
      · exact hnt h
      · exact hout hn h

/-- A session loses its administrator when the administrator goes and two others stay, and in no other way. -/
theorem Manager.loses_iff {a : Action N P S} (ha : m.Enabled a) {s : S} (hruled : m.seat.Ruled s)
    (hnot : ¬ m.seat.Orphaned s) : (m.effect a).seat.Orphaned s ↔
      ∃ n, a.leaver = some n ∧ n ∈ m.seat.admins s ∧ (m.seat.members s \ {n}).Nontrivial := by
  cases hleaver : a.leaver with
  | none => simp [Manager.orphaned_effect ha hleaver, hnot]
  | some n =>
    have hseat : (m.effect a).seat = m.seat.vacate n := by
      cases a <;> cases hleaver <;> rfl
    rw [hseat, Seating.orphaned_vacate_iff]
    constructor
    · rintro ⟨hstay, honly, hmany⟩
      have hsome : (m.seat.admins s).Nonempty := by
        by_contra hnone
        exact hnot ⟨hstay.mono Set.sdiff_subset, Set.not_nonempty_iff_eq_empty.1 hnone⟩
      obtain ⟨k, hk⟩ := hsome
      obtain rfl : k = n := honly hk
      exact ⟨k, rfl, hk, hmany (m.seat.admins_subset s hk)⟩
    · rintro ⟨k, hk, hadm, hmany⟩
      obtain rfl := Option.some.inj hk
      exact ⟨hmany.nonempty, fun j hj => hruled.one hj hadm, fun _ => hmany⟩

/-- A session gets an administrator again when one of its last two members goes, and in no other way. -/
theorem Manager.regains_iff {a : Action N P S} (ha : m.Enabled a) {s : S} (hruled : m.seat.Ruled s)
    (horphan : m.seat.Orphaned s) : ¬ (m.effect a).seat.Orphaned s ↔
      ∃ n k, a.leaver = some n ∧ n ≠ k ∧ m.seat.members s = {n, k} := by
  cases hleaver : a.leaver with
  | none => simp [Manager.orphaned_effect ha hleaver, horphan]
  | some n =>
    have hseat : (m.effect a).seat = m.seat.vacate n := by
      cases a <;> cases hleaver <;> rfl
    rw [hseat, Seating.orphaned_vacate_iff]
    have hsome : (m.seat.members s \ {n}).Nonempty := by
      -- a single member would be the administrator
      by_contra hnone
      have hsub : m.seat.members s ⊆ {n} := Set.sdiff_eq_empty.1 (Set.not_nonempty_iff_eq_empty.1 hnone)
      have hadm := hruled.alone n (hsub.antisymm ?_)
      · rw [horphan.2] at hadm
        exact hadm
      · obtain ⟨k, hk⟩ := horphan.1
        obtain rfl : k = n := hsub hk
        exact Set.singleton_subset_iff.2 hk
    constructor
    · intro hnot
      by_contra hnone
      refine hnot ⟨hsome, by rw [horphan.2]; exact Set.empty_subset _, fun hn => ?_⟩
      obtain ⟨k, hk⟩ := hsome
      by_contra hfew
      have hall : m.seat.members s \ {n} = {k} := (Set.not_nontrivial_iff.1 hfew).eq_singleton_of_mem hk
      refine hnone ⟨n, k, rfl, fun h => hk.2 h.symm, ?_⟩
      rw [← Set.insert_sdiff_self_of_mem hn, hall]
    · rintro ⟨j, k, hj, hne, hmem⟩ ⟨-, -, hmany⟩
      obtain rfl := Option.some.inj hj
      refine (hmany (by rw [hmem]; exact Or.inl rfl)).not_subsingleton ?_
      rw [hmem]
      intro i hi i' hi'
      exact (hi.1.resolve_left hi.2).trans (hi'.1.resolve_left hi'.2).symm

end Conferencing
