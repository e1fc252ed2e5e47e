import Skyline.Bytes.Basic

/-!
This module contains the comparisons of the user library that read whole words.
-/

namespace Str

open Bytes

/--
The number of zero bits below the lowest one of a word of `w` bits.
-/
def ctz : Nat → Nat → Nat
  | 0, _ => 0
  | w + 1, x => if x % 2 = 1 then 0 else ctz w (x / 2) + 1

section

variable (m : Row)

def diff (l r : Nat) : Int := (m l).toNat - (m r).toNat

/--
The comparison byte by byte, up to a difference or to a byte that ends both sides.
-/
def bytewise (ends : UInt8 → Bool) : Nat → Nat → Nat → Int
  | _, _, 0 => 0
  | l, r, n + 1 => if m l ≠ m r ∨ ends (m l) then diff m l r else bytewise ends (l + 1) (r + 1) n

def memcmpBlocks (k : Nat) (next : Nat → Nat → Nat → Int) : Nat → Nat → Nat → Nat → Int
  | 0, l, r, len => next l r len
  | fuel + 1, l, r, len =>
    if len ≥ k then
      if m.word l k ≠ m.word r k then
        let bytePos := ctz (8 * k) (m.word l k ^^^ m.word r k) / 8
        diff m (l + bytePos) (r + bytePos)
      else
        memcmpBlocks k next fuel (l + k) (r + k) (len - k)
    else
      next l r len

def memcmpTail : Nat → Nat → Nat → Int
  | _, _, 0 => 0
  | l, r, len + 1 => if m l ≠ m r then diff m l r else memcmpTail (l + 1) (r + 1) len

def memcmp (left right len : Nat) : Int :=
  memcmpBlocks m 8 (fun l r len => memcmpBlocks m 4 (memcmpTail m) len l r len) len left right len

def zeroMask (x : Nat) : Nat :=
  (x + 2 ^ 64 - 0x0101010101010101) % 2 ^ 64 &&& (2 ^ 64 - 1 - x) &&& 0x8080808080808080

def strcmpWords : Nat → Nat → Nat → Option Int
  | 0, _, _ => none
  | fuel + 1, cs, ct =>
    let x := m.word cs 8
    let y := m.word ct 8
    let mask := (x ^^^ y) ||| (zeroMask x ||| zeroMask y)
    if mask ≠ 0 then
      let byteIdx := ctz 64 mask / 8
      if m (cs + byteIdx) ≠ m (ct + byteIdx) then some (diff m (cs + byteIdx) (ct + byteIdx))
        else some 0
    else
      strcmpWords fuel (cs + 8) (ct + 8)

def strcmp : Nat → Nat → Nat → Option Int
  | 0, _, _ => none
  | fuel + 1, cs, ct =>
    if cs % 8 ≠ 0 ∨ ct % 8 ≠ 0 then
      if m cs ≠ m ct then
        some (diff m cs ct)
      else if m cs = 0 then
        some 0
      else
        strcmp fuel (cs + 1) (ct + 1)
    else
      strcmpWords m (fuel + 1) cs ct

end

theorem ctz_lt (w : Nat) {j x : Nat} (h : x % 2 ^ j ≠ 0) : ctz (j + w) x < j := by
  induction j generalizing x with
  | zero => exact absurd (Nat.mod_one x) h
  | succ j ih =>
    rw [Nat.succ_add, ctz]
    split
    . exact Nat.succ_pos j
    . next hodd =>
      apply Nat.succ_lt_succ (ih ?_)
      intro hzero
      apply h
      rw [Nat.pow_succ, Nat.mul_comm, Nat.mod_mul, hzero]
      omega

theorem ctz_add (w : Nat) {j x : Nat} (h : x % 2 ^ j = 0)
    : ctz (j + w) x = ctz w (x / 2 ^ j) + j := by
  induction j generalizing x with
  | zero => simp
  | succ j ih =>
    rw [Nat.pow_succ, Nat.mul_comm, Nat.mod_mul] at h
    have hhalf : x / 2 % 2 ^ j = 0 := by
      have := Nat.eq_zero_of_add_eq_zero_left h
      omega
    rw [Nat.succ_add, ctz, if_neg (by omega), ih hhalf, Nat.div_div_eq_div_mul, ← Nat.pow_succ']
    rfl

def Stops (m : Row) (ends : UInt8 → Bool) (l r i : Nat) : Prop :=
  m (l + i) ≠ m (r + i) ∨ ends (m (l + i)) = true

section

variable {m : Row} {ends : UInt8 → Bool} {l r i : Nat}

theorem stops_succ : Stops m ends l r (i + 1) ↔ Stops m ends (l + 1) (r + 1) i := by
  unfold Stops
  rw [Nat.add_comm i 1, Nat.add_assoc, Nat.add_assoc]

theorem bytewise_skip (h : ∀ j < i, ¬ Stops m ends l r j) (n : Nat)
    : bytewise m ends l r (i + n) = bytewise m ends (l + i) (r + i) n := by
  induction i generalizing l r with
  | zero => rw [Nat.zero_add]; rfl
  | succ i ih =>
    have hfirst : ¬ (m l ≠ m r ∨ ends (m l) = true) := h 0 (Nat.succ_pos i)
    rw [Nat.succ_add, bytewise, if_neg hfirst, ih, Nat.add_comm i 1, Nat.add_assoc, Nat.add_assoc]
    intro j hj
    exact stops_succ.not.mp (h (j + 1) (by omega))

theorem bytewise_first {n : Nat} (hi : i < n) (hat : Stops m ends l r i)
    (h : ∀ j < i, ¬ Stops m ends l r j)
    : bytewise m ends l r n = diff m (l + i) (r + i) := by
  obtain ⟨k, rfl⟩ := Nat.exists_eq_add_of_lt hi
  rw [Nat.add_assoc, bytewise_skip h, bytewise]
  exact if_pos hat

end

/--
What a mask over the bytes of two words shows: whether it stops at the lowest bytes, and else the
mask over the rest.
-/
structure Marks (mask : Nat → Nat → Nat → Nat) (ends : UInt8 → Bool) : Prop where
  zero : mask 0 0 0 = 0
  low : ∀ n x y, x < 256 ^ (n + 1) → y < 256 ^ (n + 1) →
    (mask (n + 1) x y % 2 ^ 8 = 0 ↔ x % 256 = y % 256 ∧ ends (.ofNat (x % 256)) = false)
  high : ∀ n x y, x < 256 ^ (n + 1) → y < 256 ^ (n + 1) → x % 256 = y % 256
    → ends (.ofNat (x % 256)) = false →
    mask (n + 1) x y / 2 ^ 8 = mask n (x / 256) (y / 256)

theorem Marks.spec {mask : Nat → Nat → Nat → Nat} {ends : UInt8 → Bool} (h : Marks mask ends)
    (m : Row) (l r n : Nat)
    : mask n (m.word l n) (m.word r n) = 0 ∧ (∀ i < n, ¬ Stops m ends l r i)
      ∨ mask n (m.word l n) (m.word r n) ≠ 0
      ∧ ∃ i < n, ctz (8 * n) (mask n (m.word l n) (m.word r n)) / 8 = i
        ∧ Stops m ends l r i ∧ ∀ j < i, ¬ Stops m ends l r j := by
  induction n generalizing l r with
  | zero => exact .inl ⟨h.zero, nofun⟩
  | succ n ih =>
    have hbyte : ∀ a, m.word a (n + 1) % 256 = (m a).toNat
        ∧ m.word a (n + 1) / 256 = m.word (a + 1) n := by
      intro a
      have := (m a).toNat_lt
      rw [Row.word]
      omega
    have hlow := h.low n _ _ (m.word_lt l (n + 1)) (m.word_lt r (n + 1))
    have hhigh := h.high n _ _ (m.word_lt l (n + 1)) (m.word_lt r (n + 1))
    rw [(hbyte l).1, (hbyte r).1, UInt8.toNat_inj, UInt8.ofNat_toNat] at hlow hhigh
    rw [(hbyte l).2, (hbyte r).2] at hhigh
    rw [Nat.mul_succ, Nat.add_comm (8 * n)]
    generalize mask (n + 1) _ _ = k at hlow hhigh ⊢
    have hstops : ¬ Stops m ends l r 0 ↔ m l = m r ∧ ends (m l) = false := by
      simp [Stops]
    by_cases hstop : Stops m ends l r 0
    . have hne : k % 2 ^ 8 ≠ 0 := fun hzero => hstops.mpr (hlow.mp hzero) hstop
      have hfirst := ctz_lt (8 * n) hne
      refine .inr ⟨by rintro rfl; exact hne rfl, 0, Nat.succ_pos n, by omega, hstop, nofun⟩
    . have hsame := hstops.mp hstop
      have hhigh := hhigh hsame.1 hsame.2
      rw [ctz_add (8 * n) (hlow.mpr hsame), hhigh]
      have hiff : k = 0 ↔ mask n (m.word (l + 1) n) (m.word (r + 1) n) = 0 := by
        have := hlow.mpr hsame
        omega
      have hshift : ∀ i, (∀ j < i, ¬ Stops m ends (l + 1) (r + 1) j)
          → ∀ j < i + 1, ¬ Stops m ends l r j := by
        intro i hall j hj
        cases j with
        | zero => exact hstop
        | succ j => exact stops_succ.not.mpr (hall j (by omega))
      rcases ih (l + 1) (r + 1) with ⟨hnone, hall⟩ | ⟨hsome, i, hi, hctz, hat, hbefore⟩
      . exact .inl ⟨hiff.mpr hnone, hshift n hall⟩
      . exact .inr ⟨hiff.not.mpr hsome, i + 1, by omega, by omega,
          stops_succ.mpr hat, hshift i hbefore⟩

theorem marks_xor : Marks (fun _ x y => x ^^^ y) (fun _ => false) where
  zero := rfl
  low n x y _ _ := by
    rw [Nat.xor_mod_two_pow, Nat.xor_eq_zero_iff]
    simp
  high n x y _ _ _ _ := Nat.xor_div_two_pow

def repeated (b : Nat) : Nat → Nat
  | 0 => 0
  | n + 1 => b + 256 * repeated b n

def zeros (n x : Nat) : Nat :=
  (x + 256 ^ n - repeated 1 n) % 256 ^ n &&& (256 ^ n - 1 - x) &&& repeated 128 n

theorem zeroMask_eq : zeroMask = zeros 8 := by
  funext x
  rfl

theorem repeated_lt (n : Nat) : repeated 1 n < 256 ^ n := by
  induction n with
  | zero => decide
  | succ n ih =>
    rw [repeated, Nat.pow_succ]
    omega

theorem zeros_low {n x : Nat} (hx : x < 256 ^ (n + 1))
    : zeros (n + 1) x % 2 ^ 8 = 0 ↔ x % 256 ≠ 0 := by
  have hlt := repeated_lt n
  have hbyte : ∀ b < 256, (b + 255) % 256 &&& 255 - b &&& 128 = 0 ↔ b ≠ 0 := by decide +kernel
  rw [Nat.pow_succ, Nat.mul_comm] at hx
  rw [← hbyte (x % 256) (by omega), zeros, repeated, repeated, Nat.pow_succ, Nat.mul_comm (256 ^ n),
    Nat.and_mod_two_pow, Nat.and_mod_two_pow, Nat.mod_mul_right_mod]
  rw [show (x + 256 * 256 ^ n - (1 + 256 * repeated 1 n)) % 256 = (x % 256 + 255) % 256 by omega,
    show (256 * 256 ^ n - 1 - x) % 2 ^ 8 = 255 - x % 256 by omega,
    show (128 + 256 * repeated 128 n) % 2 ^ 8 = 128 by omega]

theorem zeros_high {n x : Nat} (hx : x < 256 ^ (n + 1)) (hne : x % 256 ≠ 0)
    : zeros (n + 1) x / 2 ^ 8 = zeros n (x / 256) := by
  have hlt := repeated_lt n
  rw [Nat.pow_succ, Nat.mul_comm] at hx
  rw [zeros, repeated, repeated, Nat.pow_succ, Nat.mul_comm (256 ^ n), Nat.and_div_two_pow,
    Nat.and_div_two_pow, Nat.mod_mul_right_div_self, zeros]
  rw [show (x + 256 * 256 ^ n - (1 + 256 * repeated 1 n)) / 256
    = x / 256 + 256 ^ n - repeated 1 n by omega,
    show (256 * 256 ^ n - 1 - x) / 2 ^ 8 = 256 ^ n - 1 - x / 256 by omega,
    show (128 + 256 * repeated 128 n) / 2 ^ 8 = repeated 128 n by omega]

theorem marks_zeros : Marks (fun n x y => (x ^^^ y) ||| (zeros n x ||| zeros n y)) (· == 0) where
  zero := rfl
  low n x y hx hy := by
    have hzero : (UInt8.ofNat (x % 256) == 0) = false ↔ x % 256 ≠ 0 := by
      rw [beq_eq_false_iff_ne, Ne, ← UInt8.toNat_inj, UInt8.toNat_ofNat', Nat.mod_mod]
      rfl
    rw [Nat.or_mod_two_pow, Nat.or_mod_two_pow, Nat.or_eq_zero_iff, Nat.or_eq_zero_iff,
      Nat.xor_mod_two_pow, Nat.xor_eq_zero_iff, zeros_low hx, zeros_low hy, hzero]
    omega
  high n x y hx hy heq hne := by
    have hzero : x % 256 ≠ 0 := by
      intro hzero
      rw [hzero] at hne
      cases hne
    rw [Nat.or_div_two_pow, Nat.or_div_two_pow, Nat.xor_div_two_pow, zeros_high hx hzero,
      zeros_high hy (heq ▸ hzero)]

section

variable {m : Row} {k : Nat}

theorem memcmpTail_eq (l r len : Nat)
    : memcmpTail m l r len = bytewise m (fun _ => false) l r len := by
  induction len generalizing l r with
  | zero => rfl
  | succ _ ih => simp only [memcmpTail, bytewise, ih, Bool.false_eq_true, or_false]

theorem memcmpBlocks_eq {next : Nat → Nat → Nat → Int} (hk : 0 < k)
    (hnext : ∀ l r len, next l r len = bytewise m (fun _ => false) l r len) {fuel len : Nat}
    (hfuel : len ≤ fuel)
    (l r : Nat) : memcmpBlocks m k next fuel l r len = bytewise m (fun _ => false) l r len := by
  induction fuel generalizing l r len with
  | zero => exact hnext l r len
  | succ fuel ih =>
    rw [memcmpBlocks]
    split
    next hlen =>
      have hiff : m.word l k ^^^ m.word r k ≠ 0 ↔ m.word l k ≠ m.word r k := Nat.xor_eq_zero_iff.not
      rcases marks_xor.spec m l r k with ⟨hzero, hall⟩ | ⟨hne, i, hi, rfl, hat, hbefore⟩
      . rw [if_neg (hiff.not.mp (not_not.mpr hzero)), ih (by omega), ← bytewise_skip hall,
          Nat.add_sub_cancel' hlen]
      . rw [if_pos (hiff.mp hne), bytewise_first (by omega) hat hbefore]
    next => exact hnext l r len

theorem strcmpWords_eq {fuel len cs : Nat} (ct : Nat) (hnul : m (cs + len) = 0) (hfuel : len < fuel)
    : strcmpWords m fuel cs ct = some (bytewise m (· == 0) cs ct (len + 1)) := by
  have hend : Stops m (· == 0) cs ct len := .inr (beq_iff_eq.mpr hnul)
  induction fuel generalizing cs ct len with
  | zero => omega
  | succ fuel ih =>
    rw [strcmpWords, zeroMask_eq]
    rcases marks_zeros.spec m cs ct 8 with ⟨hzero, hall⟩ | ⟨hne, i, hi, hctz, hat, hbefore⟩
    . have hlen : 8 ≤ len := Nat.not_lt.mp fun hlt => hall len hlt hend
      obtain ⟨n, rfl⟩ := Nat.exists_eq_add_of_le hlen
      rw [← Nat.add_assoc] at hnul
      simp only [hzero, ne_eq, not_true_eq_false, if_false]
      rw [ih (ct + 8) hnul (by omega) (.inr (beq_iff_eq.mpr hnul)), Nat.add_assoc,
        bytewise_skip hall]
    . have hle : i ≤ len := Nat.not_lt.mp fun hlt => hbefore len hlt hend
      simp only [ne_eq, hne, not_false_eq_true, if_true]
      rw [hctz, bytewise_first (by omega) hat hbefore]
      split
      . rfl
      . next heq => simp [diff, not_not.mp heq]

theorem strcmp_eq {fuel len cs : Nat} (ct : Nat) (hnul : m (cs + len) = 0) (hfuel : len < fuel)
    : strcmp m fuel cs ct = some (bytewise m (· == 0) cs ct (len + 1)) := by
  induction fuel generalizing cs ct len with
  | zero => omega
  | succ fuel ih =>
    rw [strcmp]
    split
    next =>
      rw [bytewise]
      split
      next hne => rw [if_pos (.inl hne)]
      next heq =>
        split
        next hzero =>
          rw [if_pos (.inr (beq_iff_eq.mpr hzero))]
          simp [diff, not_not.mp heq]
        next hzero =>
          cases len with
          | zero => exact absurd hnul hzero
          | succ len =>
            rw [Nat.add_comm len 1, ← Nat.add_assoc] at hnul
            rw [if_neg (by simp [heq, hzero]), ih (ct + 1) hnul (by omega)]
    next => exact strcmpWords_eq ct hnul hfuel

end

structure CString (m : Row) where
  addr : Nat
  len : Nat
  nul : m (addr + len) = 0

/--
The comparisons by words give what the comparisons byte by byte give.
-/
theorem comparisons_eq (m : Row) (s t : CString m) (extra left right len : Nat)
    : strcmp m (s.len + 1 + extra) s.addr t.addr = some
      (bytewise m (· == 0) s.addr t.addr (s.len + 1))
      ∧ memcmp m left right len = bytewise m (fun _ => false) left right len := by
  constructor
  . exact strcmp_eq t.addr s.nul (by omega)
  . apply memcmpBlocks_eq (by decide) _ (Nat.le_refl len)
    intro l r len
    exact memcmpBlocks_eq (by decide) memcmpTail_eq (Nat.le_refl len) l r

def abAndAc : Row := fun i => ([97, 98, 0, 0, 0, 0, 0, 0, 97, 99] : List UInt8).getD i 0

def ab : CString abAndAc := ⟨0, 2, rfl⟩

def ac : CString abAndAc := ⟨8, 2, rfl⟩

example : strcmp abAndAc 3 ab.addr ac.addr = some (-1)
    ∧ bytewise abAndAc (· == 0) ab.addr ac.addr 3 = -1 := by decide +kernel

end Str
