import Mathlib

/-!
This module contains a memory of bytes with 64-bit addresses and rows of bytes without an end.
-/

namespace Bytes

def roundUp (n a : Nat) : Nat :=
  (n + (a - 1)) / a * a

theorem le_roundUp {a : Nat} (n : Nat) (ha : 0 < a) : n ≤ roundUp n a := by
  have hdiv := Nat.div_add_mod (n + (a - 1)) a
  have hmod := Nat.mod_lt (n + (a - 1)) ha
  rw [Nat.mul_comm] at hdiv
  unfold roundUp
  omega

theorem roundUp_lt {a : Nat} (n : Nat) (ha : 0 < a) : roundUp n a < n + a := by
  have hle := Nat.div_mul_le_self (n + (a - 1)) a
  unfold roundUp
  omega

theorem roundUp_zero (a : Nat) : roundUp 0 a = 0 := by
  unfold roundUp
  cases a with
  | zero => rfl
  | succ => rw [Nat.div_eq_of_lt (by omega), Nat.zero_mul]

theorem le_roundUp_of_pos {n a : Nat} (ha : 0 < a) (hn : 0 < n) : a ≤ roundUp n a := by
  unfold roundUp
  apply Nat.le_mul_of_pos_left
  apply Nat.div_pos
  . omega
  . exact ha

theorem and_not_mask {k : Nat} (x a : BitVec 64) (ha : a.toNat = 2 ^ k)
    : (x &&& ~~~(a - 1)).toNat = x.toNat / 2 ^ k * 2 ^ k := by
  have hsub : (a - 1).toNat = 2 ^ k - 1 := by
    have hpos : 0 < 2 ^ k := by
      apply Nat.two_pow_pos
    have hone : (1 : BitVec 64) ≤ a := by
      rw [BitVec.le_def, ha]
      exact hpos
    rw [BitVec.toNat_sub_of_le hone, ha]
    rfl
  have hshift : x &&& ~~~(a - 1) = (x >>> k) <<< k := by
    apply BitVec.eq_of_getLsbD_eq
    intro i hi
    have hbit : (a - 1).getLsbD i = decide (i < k) := by
      rw [BitVec.getLsbD, hsub, Nat.testBit_two_pow_sub_one]
    simp only [BitVec.getLsbD_and, BitVec.getLsbD_not, hbit, BitVec.getLsbD_shiftLeft,
      BitVec.getLsbD_ushiftRight]
    by_cases hlt : i < k
    . simp [hlt]
    . have hadd : k + (i - k) = i := by
        omega
      simp [hlt, hi, hadd]
  rw [hshift, BitVec.toNat_shiftLeft, BitVec.toNat_ushiftRight, Nat.shiftLeft_eq,
    Nat.shiftRight_eq_div_pow]
  apply Nat.mod_eq_of_lt
  exact Nat.lt_of_le_of_lt (Nat.div_mul_le_self x.toNat (2 ^ k)) x.isLt

abbrev Memory := BitVec 64 → UInt8

namespace Memory

def copy (m : Memory) (dst : BitVec 64) (n : Nat) (src : Nat → UInt8) : Memory :=
  fun x => if (x - dst).toNat < n then src (x - dst).toNat else m x

def fill (m : Memory) (dst : BitVec 64) (n : Nat) (byte : UInt8) : Memory :=
  m.copy dst n fun _ => byte

def store64 (m : Memory) (dst value : BitVec 64) : Memory :=
  m.copy dst 8 fun i => UInt8.ofBitVec (value.extractLsb' (8 * i) 8)

theorem copy_at (m : Memory) (dst : BitVec 64) (n : Nat) (src : Nat → UInt8) {i : Nat}
    (hi : i < 2 ^ 64)
    : m.copy dst n src (dst + BitVec.ofNat 64 i)
        =
      if i < n then src i else m (dst + BitVec.ofNat 64 i) := by
  have hoff : (dst + BitVec.ofNat 64 i - dst).toNat = i := by
    rw [BitVec.add_comm, BitVec.add_sub_cancel, BitVec.toNat_ofNat]
    exact Nat.mod_eq_of_lt hi
  simp only [copy, hoff]

end Memory

theorem zero_of_shift {g : Nat → UInt8} {n d : Nat} (hd : 0 < d)
    (h : ∀ i, i < n → g i = 0 ∨ i + d < n ∧ g i = g (i + d)) : ∀ i, i < n → g i = 0 := by
  -- by induction on how far the place is from the end
  have main : ∀ k i, i < n → n - i ≤ k → g i = 0 := by
    intro k
    induction k with
    | zero =>
      intro i hi hk
      omega
    | succ _ ih =>
      intro i hi hk
      cases h i hi with
      | inl hzero => exact hzero
      | inr hshift =>
        rw [hshift.2]
        apply ih
        . exact hshift.1
        . omega
  intro i hi
  exact main (n - i) i hi (Nat.le_refl (n - i))

abbrev Row := Nat → UInt8

namespace Row

variable {a n o k : Nat}

def drop (m : Row) (a : Nat) : Row := fun i => m (a + i)

def put (m : Row) (a n : Nat) (src : Row) : Row :=
  fun x => if a ≤ x ∧ x < a + n then src (x - a) else m x

theorem drop_drop (m : Row) (a b : Nat) : (m.drop a).drop b = m.drop (a + b) := by
  funext i
  simp only [drop, Nat.add_assoc]

theorem put_of_mem (m src : Row) {x : Nat} (hge : a ≤ x) (hlt : x < a + n)
    : m.put a n src x = src (x - a) :=
  if_pos ⟨hge, hlt⟩

theorem put_of_not_mem (m src : Row) {x : Nat} (h : x < a ∨ a + n ≤ x) : m.put a n src x = m x := by
  apply if_neg
  omega

theorem put_zero (m : Row) (a : Nat) (src : Row) : m.put a 0 src = m := by
  funext x
  apply put_of_not_mem
  omega

theorem put_put_drop (m src : Row) (h : o + k ≤ n)
    : m.put a n ((m.drop a).put o k src) = m.put (a + o) k src := by
  funext x
  by_cases hin : a + o ≤ x ∧ x < a + o + k
  . rw [put_of_mem _ _ (by omega) (by omega), put_of_mem _ _ (by omega) (by omega),
      put_of_mem _ _ hin.1 hin.2, Nat.sub_sub]
  . rw [put_of_not_mem (a := a + o) _ _ (by omega)]
    by_cases hpiece : a ≤ x ∧ x < a + n
    . rw [put_of_mem _ _ hpiece.1 hpiece.2, put_of_not_mem _ _ (by omega), drop,
        Nat.add_sub_cancel' hpiece.1]
    . rw [put_of_not_mem _ _ (by omega)]

theorem put_head_tail_middle (m src : Row) (a p q r : Nat)
    : ((m.put a p src).put (a + p + q) r (src.drop (p + q))).put (a + p) q (src.drop p)
      =
      m.put a (p + q + r) src := by
  funext x
  by_cases hmid : a + p ≤ x ∧ x < a + p + q
  . rw [put_of_mem _ _ hmid.1 hmid.2, put_of_mem _ _ (by omega) (by omega), drop]
    congr 1
    omega
  . rw [put_of_not_mem _ _ (by omega)]
    by_cases htail : a + p + q ≤ x ∧ x < a + p + q + r
    . rw [put_of_mem _ _ htail.1 htail.2, put_of_mem _ _ (by omega) (by omega), drop]
      congr 1
      omega
    . rw [put_of_not_mem _ _ (by omega)]
      by_cases hhead : a ≤ x ∧ x < a + p
      . rw [put_of_mem _ _ hhead.1 hhead.2, put_of_mem _ _ (by omega) (by omega)]
      . rw [put_of_not_mem _ _ (by omega), put_of_not_mem _ _ (by omega)]

def word (m : Row) (a n : Nat) : Nat :=
  match n with
  | 0 => 0
  | n + 1 => (m a).toNat + 256 * word m (a + 1) n

theorem word_lt (m : Row) (a n : Nat) : m.word a n < 256 ^ n := by
  induction n generalizing a with
  | zero => exact Nat.one_pos
  | succ _ ih =>
    have hbyte := (m a).toNat_lt
    have hrest := ih (a + 1)
    rw [word, Nat.pow_succ]
    omega

end Row

end Bytes
