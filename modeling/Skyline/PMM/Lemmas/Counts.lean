import Skyline.PMM.Lemmas.Scan

/-!
This module contains the free page counts.
-/

namespace PMM

def clearIn (map : Bitmap) (pages : Finset Nat) : Nat :=
  {p ∈ pages | bitTest map p = false}.card

def shardPages (s : State) (si : Nat) : Finset Nat :=
  Finset.Ico (si * 524288) (min ((si + 1) * 524288) s.bitmapPages)

def allPages (s : State) : Finset Nat :=
  Finset.range s.bitmapPages

theorem mem_shardPages (s : State) (si p : Nat)
    : p ∈ shardPages s si ↔ p < s.bitmapPages ∧ p / 524288 = si := by
  simp only [shardPages, Finset.mem_Ico, Nat.lt_min]
  omega

theorem mem_allPages (s : State) (p : Nat) : p ∈ allPages s ↔ p < s.bitmapPages := by
  simp [allPages]

theorem clearIn_le (map : Bitmap) (pages : Finset Nat) : clearIn map pages ≤ pages.card :=
  Finset.card_filter_le _ _

theorem clearIn_union (map : Bitmap) (pages1 pages2 : Finset Nat) (h : Disjoint pages1 pages2)
    : clearIn map (pages1 ∪ pages2) = clearIn map pages1 + clearIn map pages2 := by
  unfold clearIn
  rw [Finset.filter_union]
  exact Finset.card_union_of_disjoint (Finset.disjoint_filter_filter h)

theorem clearIn_set (map map' : Bitmap) (pages taken : Finset Nat)
    (hmap : ∀ (p : Nat), bitTest map' p = (bitTest map p || decide (p ∈ taken)))
    (hclear : ∀ (p : Nat), p ∈ taken → bitTest map p = false)
    : clearIn map' pages + (taken ∩ pages).card = clearIn map pages := by
  have hfilter : {p ∈ pages | bitTest map' p = false}
      = {p ∈ pages | bitTest map p = false} \ (taken ∩ pages) := by
    ext p
    simp only [Finset.mem_filter, Finset.mem_sdiff, Finset.mem_inter, hmap, Bool.or_eq_false_iff,
      decide_eq_false_iff_not]
    tauto
  have hsub : taken ∩ pages ⊆ {p ∈ pages | bitTest map p = false} := by
    intro p hp
    simp only [Finset.mem_inter] at hp
    simp only [Finset.mem_filter]
    exact ⟨hp.right, hclear p hp.left⟩
  unfold clearIn
  rw [hfilter, Finset.card_sdiff_of_subset hsub]
  exact Nat.sub_add_cancel (Finset.card_le_card hsub)

theorem clearIn_clear (map map' : Bitmap) (pages given : Finset Nat)
    (hmap : ∀ (p : Nat), bitTest map' p = (bitTest map p && !decide (p ∈ given)))
    (hset : ∀ (p : Nat), p ∈ given → bitTest map p = true)
    : clearIn map' pages = clearIn map pages + (given ∩ pages).card := by
  have := clearIn_set map' map pages given ?_ ?_
  . exact this.symm
  . intro p
    rw [hmap]
    by_cases hp : p ∈ given
    . simp [hp, hset p hp]
    . simp [hp]
  . intro p hp
    simp [hmap, hp]

theorem cpopNatRec_eq (x : BitVec 64) (n acc : Nat)
    : x.cpopNatRec n acc = acc + {i ∈ Finset.range n | x.getLsbD i = true}.card := by
  induction n generalizing acc with
  | zero => simp
  | succ n ih =>
    rw [BitVec.cpopNatRec_succ, ih, Finset.range_add_one, Finset.filter_insert]
    cases hbit : x.getLsbD n with
    | false => simp
    | true =>
      simp only [Bool.toNat_true, ↓reduceIte]
      rw [Finset.card_insert_of_notMem (by simp)]
      omega

theorem cpop_not_eq (map : Bitmap) (w : Nat)
    : (~~~(map w)).cpop.toNat = clearIn map (Finset.Ico (w * 64) ((w + 1) * 64)) := by
  rw [BitVec.toNat_cpop, cpopNatRec_eq, Nat.zero_add, clearIn]
  apply Finset.card_bij (fun i _ => w * 64 + i)
  . intro i hi
    simp only [Finset.mem_filter, Finset.mem_range, BitVec.getLsbD_not, Bool.and_eq_true,
      decide_eq_true_eq, Bool.not_eq_true'] at hi
    simp only [Finset.mem_filter, Finset.mem_Ico]
    rw [bitTest, show (w * 64 + i) / 64 = w by omega, show (w * 64 + i) % 64 = i by omega]
    exact ⟨by omega, hi.right.right⟩
  . intro i _ j _ h
    omega
  . intro p hp
    simp only [Finset.mem_filter, Finset.mem_Ico] at hp
    rw [bitTest, show p / 64 = w by omega] at hp
    refine ⟨p % 64, ?_, by omega⟩
    simp only [Finset.mem_filter, Finset.mem_range, BitVec.getLsbD_not, Bool.and_eq_true,
      decide_eq_true_eq, Bool.not_eq_true']
    exact ⟨by omega, by omega, hp.right⟩

theorem clearBits_eq (map : Bitmap) (w n : Nat)
    : clearBits map w n = clearIn map (Finset.Ico (w * 64) ((w + n) * 64)) := by
  induction n generalizing w with
  | zero => simp [clearBits, clearIn]
  | succ _ ih =>
    rw [clearBits, ih, cpop_not_eq, ← clearIn_union]
    . rw [Finset.Ico_union_Ico_eq_Ico (by omega) (by omega)]
      congr 2
      omega
    . rw [Finset.disjoint_left]
      intro p h1 h2
      simp only [Finset.mem_Ico] at h1 h2
      omega

theorem sum_clearIn_shardPages (s : State) (hs : Geometry s) (map : Bitmap)
    : ∑ si ∈ Finset.range s.shardCount, clearIn map (shardPages s si) = clearIn map
      (allPages s) := by
  have hbelow : ∀ (k : Nat), ∑ si ∈ Finset.range k, clearIn map (shardPages s si)
      = clearIn map {p ∈ allPages s | p < k * 524288} := by
    intro k
    induction k with
    | zero => simp [clearIn]
    | succ _ ih =>
      rw [Finset.sum_range_succ, ih, ← clearIn_union]
      . congr 1
        ext p
        simp only [Finset.mem_union, Finset.mem_filter, mem_allPages, mem_shardPages]
        omega
      . rw [Finset.disjoint_left]
        intro p h1 h2
        simp only [Finset.mem_filter] at h1
        rw [mem_shardPages] at h2
        omega
  rw [hbelow]
  congr 1
  ext p
  simp only [Finset.mem_filter, mem_allPages, and_iff_left_iff_imp]
  intro hp
  have := hs.shard_lt hp
  omega

structure Owing (s : State) (debt : Nat → Nat) (total : Nat) : Prop where
  shard : ∀ (si : Nat), si < s.shardCount →
    (s.shards si).freePages = clearIn s.l1Map (shardPages s si) + debt si
  global : s.freePages = clearIn s.l1Map (allPages s) + total

def Counts (s : State) : Prop :=
  Owing s (fun _ => 0) 0

theorem Counts.shard_eq {s : State} (h : Counts s) {si : Nat} (hsi : si < s.shardCount)
    : (s.shards si).freePages = clearIn s.l1Map (shardPages s si) := by
  rw [Owing.shard h si hsi, Nat.add_zero]

theorem Counts.global_eq {s : State} (h : Counts s)
    : s.freePages = clearIn s.l1Map (allPages s) := by
  rw [Owing.global h, Nat.add_zero]

theorem Owing.congr {s : State} {debt debt' : Nat → Nat} {total total' : Nat}
    (h : Owing s debt total) (hdebt : ∀ (si : Nat), si < s.shardCount → debt si = debt' si)
    (htotal : total = total') : Owing s debt' total' where
  shard := by
    intro si hsi
    rw [← hdebt si hsi]
    exact h.shard si hsi
  global := by
    rw [← htotal]
    exact h.global

theorem fetchSub_add (x n : Nat) (h : x + n < 2 ^ 64) : fetchSub (x + n) n = x := by
  unfold fetchSub
  omega

theorem fetchAdd_eq (x n : Nat) (h : x + n < 2 ^ 64) : fetchAdd x n = x + n := by
  unfold fetchAdd
  omega

theorem clearIn_shardPages_le (s : State) (map : Bitmap) (si : Nat)
    : clearIn map (shardPages s si) ≤ 524288 := by
  have := clearIn_le map (shardPages s si)
  simp only [shardPages, Nat.card_Ico] at this
  unfold shardPages
  omega

theorem clearIn_allPages_le (s : State) (hs : Geometry s) (map : Bitmap)
    : clearIn map (allPages s) ≤ 2 ^ 40 := by
  have := clearIn_le map (allPages s)
  have := hs.pages_le
  simp only [allPages, Finset.card_range] at *
  omega

end PMM
