import Mathlib

/-!
This module contains the abstract model of an allocator.
-/

variable {α ρ : Type}

structure Pool (α ρ : Type) where
  avail : Set α
  live : List ρ

namespace Pool

inductive Step [BEq ρ] (units : ρ → Set α) : Pool α ρ → Pool α ρ → Prop where
  | idle (p : Pool α ρ) : Step units p p
  | take (p : Pool α ρ) (r : ρ) (h : units r ⊆ p.avail)
    : Step units p { avail := p.avail \ units r, live := r :: p.live }
  | give (p : Pool α ρ) (r : ρ) (h : r ∈ p.live)
    : Step units p { avail := p.avail ∪ units r, live := p.live.erase r }
  | lose (p : Pool α ρ) (r : ρ) (h : r ∈ p.live)
    : Step units p { avail := p.avail, live := p.live.erase r }

structure Sound (units : ρ → Set α) (managed : Set α) (p : Pool α ρ) : Prop where
  live_disjoint : p.live.Pairwise fun r1 r2 => Disjoint (units r1) (units r2)
  live_avail : ∀ (r : ρ), r ∈ p.live → Disjoint (units r) p.avail
  live_managed : ∀ (r : ρ), r ∈ p.live → units r ⊆ managed
  avail_managed : p.avail ⊆ managed

variable [BEq ρ] [LawfulBEq ρ] {units : ρ → Set α} {managed : Set α}

theorem Step.sound {p p' : Pool α ρ} (hstep : Step units p p') (h : Sound units managed p)
    : Sound units managed p' := by
  cases hstep with
  | idle => exact h
  | take _ hr =>
    constructor
    . rw [List.pairwise_cons]
      refine ⟨?_, h.live_disjoint⟩
      intro r' hr'
      exact ((h.live_avail r' hr').mono_right hr).symm
    . intro r' hr'
      rw [List.mem_cons] at hr'
      cases hr' with
      | inl heq =>
        rw [heq]
        exact Set.disjoint_sdiff_right
      | inr hmem => exact (h.live_avail r' hmem).mono_right Set.sdiff_subset
    . intro r' hr'
      rw [List.mem_cons] at hr'
      cases hr' with
      | inl heq =>
        rw [heq]
        exact hr.trans h.avail_managed
      | inr hmem => exact h.live_managed r' hmem
    . exact Set.sdiff_subset.trans h.avail_managed
  | give r hr =>
    have hperm := List.perm_cons_erase hr
    have hpair := (hperm.pairwise_iff (fun h => h.symm)).mp h.live_disjoint
    rw [List.pairwise_cons] at hpair
    constructor
    . exact hpair.right
    . intro r' hr'
      rw [Set.disjoint_union_right]
      exact ⟨h.live_avail r' (List.mem_of_mem_erase hr'), (hpair.left r' hr').symm⟩
    . intro r' hr'
      exact h.live_managed r' (List.mem_of_mem_erase hr')
    . exact Set.union_subset h.avail_managed (h.live_managed r hr)
  | lose =>
    constructor
    . exact h.live_disjoint.sublist List.erase_sublist
    . intro r' hr'
      exact h.live_avail r' (List.mem_of_mem_erase hr')
    . intro r' hr'
      exact h.live_managed r' (List.mem_of_mem_erase hr')
    . exact h.avail_managed

abbrev Run (units : ρ → Set α) : Pool α ρ → Pool α ρ → Prop :=
  Relation.ReflTransGen (Step units)

end Pool
