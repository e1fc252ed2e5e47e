import Skyline.Bytes.Basic

/-!
This module contains the program headers of an ELF file and the roundings of the loader.
-/

namespace ELF

open Bytes

def pageSize : BitVec 64 := 4096

def userAddrLimit : Nat := 0x800000000000

def ptLoad : BitVec 32 := 1

def ptTls : BitVec 32 := 7

structure Phdr where
  type : BitVec 32
  flags : BitVec 32
  offset : BitVec 64
  vaddr : BitVec 64
  filesz : BitVec 64
  memsz : BitVec 64
  align : BitVec 64
  deriving DecidableEq, Repr

def divRoundUp (x y : BitVec 64) : BitVec 64 :=
  (x + (y - 1)) / y

def alignUp (x y : BitVec 64) : BitVec 64 :=
  divRoundUp x y * y

def dlAlignUp (v a : BitVec 64) : BitVec 64 :=
  if a ≠ 0 then (v + a - 1) &&& ~~~(a - 1) else v

def PowerOfTwo (a : BitVec 64) : Prop :=
  ∃ k, a.toNat = 2 ^ k

namespace PowerOfTwo

variable {a : BitVec 64}

section

variable (h : PowerOfTwo a)
include h

theorem pos : 0 < a.toNat := by
  obtain ⟨k, hk⟩ := h
  rw [hk]
  apply Nat.two_pow_pos

theorem ne_zero : a ≠ 0 := by
  intro hzero
  have hpos := h.pos
  rw [hzero] at hpos
  exact absurd hpos (by decide)

theorem toNat_pred : (a - 1).toNat = a.toNat - 1 := by
  have hone : (1 : BitVec 64) ≤ a := by
    rw [BitVec.le_def]
    exact h.pos
  rw [BitVec.toNat_sub_of_le hone]
  rfl

theorem le_half : a.toNat ≤ 2 ^ 63 := by
  obtain ⟨k, hk⟩ := h
  have hlt : 2 ^ k < 2 ^ 64 := by
    rw [← hk]
    exact a.isLt
  have hk63 : k ≤ 63 := by
    have hexp := (Nat.pow_lt_pow_iff_right (by omega : 1 < 2)).1 hlt
    omega
  rw [hk]
  exact Nat.pow_le_pow_right (by omega) hk63

end

end PowerOfTwo

def wrapRound (x a : Nat) : Nat :=
  if x + (a - 1) < 2 ^ 64 then roundUp x a else 0

theorem wrapRound_eq {x : Nat} {a : BitVec 64} (h : PowerOfTwo a) (hlt : roundUp x a.toNat < 2 ^ 64)
    : wrapRound x a.toNat = roundUp x a.toNat := by
  unfold wrapRound
  apply if_pos
  -- an alignment divides 2 ^ 64, so a sum that wraps has a multiple of it at 2 ^ 64 or above
  apply Nat.lt_of_not_le
  intro hwrap
  obtain ⟨k, hk⟩ := id h
  have hdvd : a.toNat ∣ 2 ^ 64 := by
    rw [hk]
    apply Nat.pow_dvd_pow 2
    have hexp := (Nat.pow_lt_pow_iff_right (by omega : 1 < 2)).1 (hk ▸ a.isLt)
    omega
  have hle : 2 ^ 64 / a.toNat ≤ (x + (a.toNat - 1)) / a.toNat :=
    Nat.div_le_div_right hwrap
  have hmul := Nat.mul_le_mul_right a.toNat hle
  rw [Nat.div_mul_cancel hdvd] at hmul
  exact absurd hlt (Nat.not_lt.2 hmul)

theorem toNat_alignUp {a : BitVec 64} (h : PowerOfTwo a) (x : BitVec 64)
    : (alignUp x a).toNat = wrapRound x.toNat a.toNat := by
  have hpos := h.pos
  have hx := x.isLt
  have ha := a.isLt
  have hdiv := Nat.div_mul_le_self ((x.toNat + (a.toNat - 1)) % 2 ^ 64) a.toNat
  have hmod := Nat.mod_lt (x.toNat + (a.toNat - 1)) (Nat.two_pow_pos 64)
  unfold alignUp divRoundUp wrapRound
  rw [BitVec.toNat_mul, BitVec.toNat_udiv, BitVec.toNat_add, h.toNat_pred,
    Nat.mod_eq_of_lt (Nat.lt_of_le_of_lt hdiv hmod)]
  split
  next hlt =>
    rw [Nat.mod_eq_of_lt hlt]
    rfl
  next hge =>
    -- the wrapped sum is below the alignment
    have hsub : (x.toNat + (a.toNat - 1)) % 2 ^ 64 = x.toNat + (a.toNat - 1) - 2 ^ 64 := by
      rw [Nat.mod_eq_sub_mod (by omega), Nat.mod_eq_of_lt (by omega)]
    rw [hsub, Nat.div_eq_of_lt (by omega), Nat.zero_mul]

theorem dlAlignUp_eq_alignUp {a : BitVec 64} (h : PowerOfTwo a) (v : BitVec 64)
    : dlAlignUp v a = alignUp v a := by
  have hadd : v + a - 1 = v + (a - 1) := by
    rw [BitVec.sub_eq_add_neg, BitVec.sub_eq_add_neg, BitVec.add_assoc]
  obtain ⟨k, hk⟩ := id h
  have hdiv := Nat.div_mul_le_self ((v.toNat + (a.toNat - 1)) % 2 ^ 64) a.toNat
  have hmod := Nat.mod_lt (v.toNat + (a.toNat - 1)) (Nat.two_pow_pos 64)
  apply BitVec.eq_of_toNat_eq
  unfold alignUp divRoundUp dlAlignUp
  rw [if_pos h.ne_zero, hadd, and_not_mask _ a hk, BitVec.toNat_mul,
    BitVec.toNat_udiv, BitVec.toNat_add,
    h.toNat_pred, Nat.mod_eq_of_lt (Nat.lt_of_le_of_lt hdiv hmod), ← hk]

end ELF
