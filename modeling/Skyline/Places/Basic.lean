import Mathlib

/-!
This module contains items that stand in the lists of several places.
-/

variable {ι α : Type} {items items' : ι → List α} {a b : α} {i j k : ι}

structure Apart (items : ι → List α) : Prop where
  nodup : ∀ i, (items i).Nodup
  eq_of_mem : ∀ i j a, a ∈ items i → a ∈ items j → i = j

structure Moved (items items' : ι → List α) (a : α) (i j : ι) : Prop where
  ne : i ≠ j
  left : (items i).Perm (a :: items' i)
  entered : (items' j).Perm (a :: items j)
  others : ∀ k, k ≠ i → k ≠ j → items' k = items k

namespace Moved

section

variable (h : Moved items items' a i j)
include h

theorem mem (hb : b ∈ items' k) : b ∈ items k ∨ b = a ∧ k = j := by
  by_cases hj : k = j
  . rw [hj, h.entered.mem_iff, List.mem_cons] at hb
    rw [hj]
    cases hb with
    | inl heq => exact .inr ⟨heq, rfl⟩
    | inr hmem => exact .inl hmem
  . by_cases hi : k = i
    . rw [hi]
      rw [hi] at hb
      apply Or.inl
      rw [h.left.mem_iff]
      exact List.mem_cons_of_mem a hb
    . rw [h.others k hi hj] at hb
      exact .inl hb

theorem mem_or (hb : b ∈ items k) : b ∈ items' k ∨ b = a := by
  by_cases hi : k = i
  . rw [hi, h.left.mem_iff, List.mem_cons] at hb
    rw [hi]
    exact hb.symm
  . by_cases hj : k = j
    . rw [hj]
      rw [hj] at hb
      apply Or.inl
      rw [h.entered.mem_iff]
      exact List.mem_cons_of_mem a hb
    . rw [h.others k hi hj]
      exact .inl hb

theorem mem_left : a ∈ items i := by
  rw [h.left.mem_iff]
  exact List.mem_cons_self

theorem mem_entered : a ∈ items' j := by
  rw [h.entered.mem_iff]
  exact List.mem_cons_self

theorem exists_mem_iff : (∃ k, b ∈ items' k) ↔ ∃ k, b ∈ items k := by
  constructor
  . intro ⟨k, hk⟩
    cases h.mem hk with
    | inl hmem => exact ⟨k, hmem⟩
    | inr heq =>
      rw [heq.1]
      exact ⟨i, h.mem_left⟩
  . intro ⟨k, hk⟩
    cases h.mem_or hk with
    | inl hmem => exact ⟨k, hmem⟩
    | inr heq =>
      rw [heq]
      exact ⟨j, h.mem_entered⟩

theorem apart (hapart : Apart items) : Apart items' := by
  have hsrc := List.nodup_cons.mp (h.left.nodup_iff.mp (hapart.nodup i))
  -- the item was only at the place it left
  have honly : ∀ k, a ∈ items' k → k = j := by
    intro k hk
    cases h.mem hk with
    | inl hmem =>
      have hki := hapart.eq_of_mem k i a hmem h.mem_left
      rw [hki] at hk
      exact absurd hk hsrc.1
    | inr heq => exact heq.2
  constructor
  . intro k
    by_cases hj : k = j
    . rw [hj, h.entered.nodup_iff, List.nodup_cons]
      refine ⟨?_, hapart.nodup j⟩
      intro hmem
      exact h.ne (hapart.eq_of_mem i j a h.mem_left hmem)
    . by_cases hi : k = i
      . rw [hi]
        exact hsrc.2
      . rw [h.others k hi hj]
        exact hapart.nodup k
  . intro k l b hk hl
    cases h.mem hk with
    | inl hbk =>
      cases h.mem hl with
      | inl hbl => exact hapart.eq_of_mem k l b hbk hbl
      | inr heq =>
        rw [heq.1] at hk
        rw [honly k hk, heq.2]
    | inr heq =>
      rw [heq.1] at hl
      rw [honly l hl, heq.2]

end

end Moved

theorem Apart.add {new : List α} (h : Apart items) (hnew : new.Nodup)
    (hfresh : ∀ a ∈ new, ∀ k, a ∉ items k) (hj : items' j = new)
    (hothers : ∀ k, k ≠ j → items' k = items k)
    : Apart items' := by
  have hmem : ∀ k b, b ∈ items' k → k ≠ j → b ∈ items k := by
    intro k b hb hk
    rwa [hothers k hk] at hb
  constructor
  . intro k
    by_cases hk : k = j
    . rw [hk, hj]
      exact hnew
    . rw [hothers k hk]
      exact h.nodup k
  . intro k l b hbk hbl
    by_cases hk : k = j
    . by_cases hl : l = j
      . rw [hk, hl]
      . rw [hk, hj] at hbk
        exact absurd (hmem l b hbl hl) (hfresh b hbk l)
    . by_cases hl : l = j
      . rw [hl, hj] at hbl
        exact absurd (hmem k b hbk hk) (hfresh b hbl k)
      . exact h.eq_of_mem k l b (hmem k b hbk hk) (hmem l b hbl hl)

structure Relocated (items items' : ι → List α) (i j : ι) : Prop where
  empty : items j = []
  left : items' i = []
  entered : items' j = items i
  others : ∀ k, k ≠ i → k ≠ j → items' k = items k

namespace Relocated

section

variable (h : Relocated items items' i j)
include h

theorem mem (hb : b ∈ items' k)
    : b ∈ items k ∧ k ≠ i ∨ b ∈ items i ∧ k = j := by
  by_cases hj : k = j
  . rw [hj, h.entered] at hb
    exact .inr ⟨hb, hj⟩
  . by_cases hi : k = i
    . rw [hi, h.left] at hb
      cases hb
    . rw [h.others k hi hj] at hb
      exact .inl ⟨hb, hi⟩

theorem exists_mem_iff : (∃ k, b ∈ items' k) ↔ ∃ k, b ∈ items k := by
  constructor
  . intro ⟨k, hk⟩
    cases h.mem hk with
    | inl hmem => exact ⟨k, hmem.1⟩
    | inr hmem => exact ⟨i, hmem.1⟩
  . intro ⟨k, hk⟩
    by_cases hi : k = i
    . rw [hi] at hk
      refine ⟨j, ?_⟩
      rw [h.entered]
      exact hk
    . have hj : k ≠ j := by
        intro heq
        rw [heq, h.empty] at hk
        cases hk
      refine ⟨k, ?_⟩
      rw [h.others k hi hj]
      exact hk

theorem apart (hapart : Apart items) : Apart items' := by
  constructor
  . intro k
    by_cases hj : k = j
    . rw [hj, h.entered]
      exact hapart.nodup i
    . by_cases hi : k = i
      . rw [hi, h.left]
        exact List.nodup_nil
      . rw [h.others k hi hj]
        exact hapart.nodup k
  . intro k l b hk hl
    cases h.mem hk with
    | inl hbk =>
      cases h.mem hl with
      | inl hbl => exact hapart.eq_of_mem k l b hbk.1 hbl.1
      | inr hbl => exact absurd (hapart.eq_of_mem k i b hbk.1 hbl.1) hbk.2
    | inr hbk =>
      cases h.mem hl with
      | inl hbl => exact absurd (hapart.eq_of_mem l i b hbl.1 hbk.1) hbl.2
      | inr hbl => rw [hbk.2, hbl.2]

end

end Relocated
