import Mathlib

/-!
This module contains the arithmetic of rings with `n` slots.
-/

namespace Cyclic

variable {n a p q i : Nat}

section

variable (hp : a ≤ p) (hpn : p < a + n) (hq : a ≤ q) (hqn : q < a + n)
include hp hpn hq hqn

theorem eq_of_mod_eq (h : p % n = q % n)
    : p = q := by
  rcases Nat.le_total p q with hle | hle
  . have hsub := Nat.sub_mod_eq_zero_of_mod_eq h.symm
    rw [Nat.mod_eq_of_lt (by omega)] at hsub
    omega
  . have hsub := Nat.sub_mod_eq_zero_of_mod_eq h
    rw [Nat.mod_eq_of_lt (by omega)] at hsub
    omega

theorem mod_ne (h : p ≠ q)
    : p % n ≠ q % n := fun heq => h (eq_of_mod_eq hp hpn hq hqn heq)

end

theorem exists_pos (a : Nat) (h : i < n) : ∃ p, a ≤ p ∧ p < a + n ∧ p % n = i := by
  have hlt := Nat.mod_lt a (show 0 < n by omega)
  have hdiv := Nat.div_add_mod a n
  by_cases hle : a % n ≤ i
  . refine ⟨n * (a / n) + i, by omega, by omega, ?_⟩
    rw [Nat.mul_add_mod, Nat.mod_eq_of_lt h]
  . refine ⟨n * (a / n + 1) + i, by rw [Nat.mul_add_one]; omega, by rw [Nat.mul_add_one]; omega, ?_⟩
    rw [Nat.mul_add_mod, Nat.mod_eq_of_lt h]

theorem distance_mod (hn : 0 < n) (hp : a ≤ p) : (p % n + n - a % n) % n = (p - a) % n := by
  have hlt := Nat.mod_lt a hn
  have hlt' := Nat.mod_lt (p - a) hn
  have hmod : (a % n + (p - a) % n) % n = p % n := by
    rw [← Nat.add_mod, Nat.add_sub_cancel' hp]
  by_cases hwrap : a % n + (p - a) % n < n
  . rw [Nat.mod_eq_of_lt hwrap] at hmod
    rw [← hmod, show a % n + (p - a) % n + n - a % n = (p - a) % n + n by omega,
      Nat.add_mod_right, Nat.mod_mod]
  . rw [Nat.mod_eq_sub_mod (by omega), Nat.mod_eq_of_lt (by omega)] at hmod
    rw [← hmod, show a % n + (p - a) % n - n + n - a % n = (p - a) % n by omega, Nat.mod_mod]

theorem distance (hp : a ≤ p) (hpn : p < a + n) : (p % n + n - a % n) % n = p - a := by
  rw [distance_mod (by omega) hp, Nat.mod_eq_of_lt (by omega)]

end Cyclic
