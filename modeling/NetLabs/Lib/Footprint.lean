import NetLabs.Lib.Table

/-!
# Confined changes

A change to a table is planned before it is made: from the whole table a function is chosen, which is then applied to
every record.  A plan is confined to a footprint when it changes the records in the footprint only, and chooses the same
function for two tables that agree on it.  Plans with footprints apart commute (`Confined.commute`).
-/

namespace Footprint

open Table

variable {α κ : Type*} {key : α → κ}

/-- What to do to the record at each position; `none` when the change is undefined. -/
abbrev Plan (α : Type*) := List α → Option (Nat → α → α)

/-- The table after a planned change. -/
def Plan.run (p : Plan α) (l : List α) : Option (List α) := (p l).map l.mapIdx

/-- Two tables with the same keys and with the same records in a footprint. -/
def Agree (key : α → κ) (near : Nat → α → Prop) : List α → List α → Prop :=
  Pointwise fun k a b => key b = key a ∧ (near k a ∨ near k b → b = a)

/-- On the tables that are `ok`, the plan reads and changes the records of the footprint only. -/
structure Confined (key : α → κ) (ok : List α → Prop) (near : Nat → α → Prop) (p : Plan α) : Prop where
  key_eq : ∀ {l f}, ok l → p l = some f → ∀ k a, l[k]? = some a → key (f k a) = key a
  frame : ∀ {l f}, ok l → p l = some f → ∀ k a, l[k]? = some a → ¬ near k a → f k a = a
  reads : ∀ {l l'}, ok l → ok l' → Agree key near l l' → p l' = p l

/-- The records in the footprint of the plan are outside the other footprint, and stay outside. -/
def Apart (near near' : Nat → α → Prop) (p : Plan α) (l : List α) : Prop :=
  ∀ f, p l = some f → ∀ k a, l[k]? = some a → near k a → ¬ near' k a ∧ ¬ near' k (f k a)

section Commute

variable {ok ok' : List α → Prop} {near near' : Nat → α → Prop} {p p' : Plan α} {l : List α} {f f' : Nat → α → α}

/-- A change does not show in a footprint that it is apart from. -/
theorem Confined.agree (h : Confined key ok near p) (hok : ok l) (hapart : Apart near near' p l) (hf : p l = some f) :
    Agree key near' l (l.mapIdx f) := by
  refine .mapIdx fun k a hk => ⟨h.key_eq hok hf k a hk, fun hnear' => ?_⟩
  apply h.frame hok hf k a hk
  intro hnear
  obtain ⟨hout, hout'⟩ := hapart f hf k a hk hnear
  exact hnear'.elim hout hout'

/-- A plan is made as if the change had not been made before. -/
theorem Confined.reads_mapIdx (h : Confined key ok near p) (h' : Confined key ok' near' p') (hok : ok l) (hok' : ok' l)
    (hkept : ok' (l.mapIdx f)) (hapart : Apart near near' p l) (hf : p l = some f) : p' (l.mapIdx f) = p' l :=
  h'.reads hok' hkept (h.agree hok hapart hf)

theorem Confined.commute (h : Confined key ok near p) (h' : Confined key ok' near' p') (hok : ok l) (hok' : ok' l)
    (hkept : ∀ f, p l = some f → ok' (l.mapIdx f)) (hkept' : ∀ f', p' l = some f' → ok (l.mapIdx f'))
    (hapart : Apart near near' p l) (hapart' : Apart near' near p' l) :
    (p.run l).bind p'.run = (p'.run l).bind p.run := by
  cases hf : p l with
  | none =>
    cases hf' : p' l with
    | none => simp [Plan.run, hf, hf']
    | some f' =>
      have hreads := h'.reads_mapIdx h hok' hok (hkept' f' hf') hapart' hf'
      simp [Plan.run, hf, hf', hreads]
  | some f =>
    have hreads' := h.reads_mapIdx h' hok hok' (hkept f hf) hapart hf
    cases hf' : p' l with
    | none => simp [Plan.run, hf, hf', hreads']
    | some f' =>
      have hreads := h'.reads_mapIdx h hok' hok (hkept' f' hf') hapart' hf'
      simp only [Plan.run, hf, hf', hreads, hreads', Option.map_some, Option.bind_some, Option.some.injEq]
      apply List.ext_getElem?
      intro k
      simp only [List.getElem?_mapIdx, Option.map_map]
      cases hk : l[k]? with
      | none => rfl
      | some a =>
        have hget : (l.mapIdx f)[k]? = some (f k a) := by rw [List.getElem?_mapIdx, hk, Option.map_some]
        have hget' : (l.mapIdx f')[k]? = some (f' k a) := by rw [List.getElem?_mapIdx, hk, Option.map_some]
        simp only [Option.map_some, Function.comp_apply, Option.some.injEq]
        by_cases hnear : near k a
        · obtain ⟨hout, hout'⟩ := hapart f hf k a hk hnear
          rw [h'.frame (hkept f hf) (hreads'.trans hf') k _ hget hout', h'.frame hok' hf' k a hk hout]
        · rw [h.frame hok hf k a hk hnear]
          by_cases hnear' : near' k a
          · obtain ⟨-, hout'⟩ := hapart' f' hf' k a hk hnear'
            rw [h.frame (hkept' f' hf') (hreads.trans hf) k _ hget' hout']
          · rw [h'.frame hok' hf' k a hk hnear', h.frame hok hf k a hk hnear]

end Commute

end Footprint
