import Mathlib

/-!
This module contains transition systems that are given by a step function over actions.
-/

namespace Steps

open Function

variable {σ α : Type} {step : σ → α → Option σ} {ok : σ → α → Prop} {s t u : σ}

inductive Reach (step : σ → α → Option σ) (ok : σ → α → Prop) (s : σ) : σ → Prop where
  | refl : Reach step ok s s
  | tail {t u : σ} (a : α) (h : Reach step ok s t) (hok : ok t a) (hstep : step t a = some u)
    : Reach step ok s u

def run (step : σ → α → Option σ) (ok : σ → α → Prop) [∀ s a, Decidable (ok s a)] (s : σ)
    : List α → Option σ
  | [] => some s
  | a :: as =>
    if ok s a then
      (step s a).bind fun s => run step ok s as
    else
      none

theorem Reach.trans (h1 : Reach step ok s t) (h2 : Reach step ok t u) : Reach step ok s u := by
  induction h2 with
  | refl => exact h1
  | tail a _ hok hstep ih => exact ih.tail a hok hstep

theorem Reach.mono {ok' : σ → α → Prop} (hok : ∀ (s : σ) (a : α), ok s a → ok' s a)
    (h : Reach step ok s t)
    : Reach step ok' s t := by
  induction h with
  | refl => exact .refl
  | tail a _ h hstep ih => exact ih.tail a (hok _ a h) hstep

theorem Reach.invariant (inv : σ → Prop) (hinit : inv s)
    (hstep : ∀ (t : σ) (a : α) (u : σ), inv t → ok t a → step t a = some u → inv u)
    (h : Reach step ok s t)
    : inv t := by
  induction h with
  | refl => exact hinit
  | tail a _ hok hs ih => exact hstep _ a _ ih hok hs

theorem Reach.of_run [∀ s a, Decidable (ok s a)] (as : List α) (h : run step ok s as = some t)
    : Reach step ok s t := by
  induction as generalizing s with
  | nil =>
    cases h
    exact .refl
  | cons a _ ih =>
    unfold run at h
    split at h
    next hok =>
      rw [Option.bind_eq_some_iff] at h
      obtain ⟨s', hs, h⟩ := h
      exact Reach.trans (.tail a .refl hok hs) (ih h)
    next => cases h

theorem Reach.exists_of_run (step : σ → α → Option σ) (ok : σ → α → Prop)
    [∀ s a, Decidable (ok s a)] (s : σ) (as : List α) (p : σ → Prop) [DecidablePred p]
    (h : (run step ok s as).any fun t => p t)
    : ∃ t, Reach step ok s t ∧ p t := by
  rw [Option.any_eq_true] at h
  obtain ⟨t, hrun, hp⟩ := h
  exact ⟨t, .of_run as hrun, of_decide_eq_true hp⟩

theorem sum_update {ι β : Type} [Fintype ι] [DecidableEq ι] (g : ι → β → Nat) (f : ι → β) (i : ι)
    (x : β)
    : ∑ j, g j (update f i x j) + g i (f i) = ∑ j, g j (f j) + g i x := by
  rw [← Finset.add_sum_erase _ _ (Finset.mem_univ i),
    ← Finset.add_sum_erase _ _ (Finset.mem_univ i)]
  have hrest : ∑ j ∈ Finset.univ.erase i, g j (update f i x j)
      = ∑ j ∈ Finset.univ.erase i, g j (f j) := by
    apply Finset.sum_congr rfl
    intro j hj
    rw [update_of_ne (Finset.ne_of_mem_erase hj)]
  rw [hrest, update_self]
  omega

end Steps
