import Skyline.PMM.Lemmas.Levels

/-!
This module contains the proof that the bulk transitions change exactly the pages of their range and
keep the levels in agreement.
-/

namespace PMM

theorem l2FullPropagate_eq (s : State) (l2 : Nat)
    : l2FullPropagate s l2 = { s with l3Map := (l2FullPropagate s l2).l3Map } := by
  unfold l2FullPropagate
  dsimp only
  split <;> rfl

variable {s : State}

section

variable {l2 : Nat} {l1Map : Bitmap} {mask : Nat → Bool}

theorem bitTest_of_mask (hl1 : ∀ (p : Nat), bitTest l1Map p = (bitTest s.l1Map p || mask p))
    (hmask : ∀ (p : Nat), mask p = true → p / 512 = l2) (p : Nat) (hp : p / 512 ≠ l2)
    : bitTest l1Map p = bitTest s.l1Map p := by
  rw [hl1, Bool.eq_false_iff.2 fun hm => hp (hmask p hm), Bool.or_false]

variable (h : Levels s) (hl1 : ∀ (p : Nat), bitTest l1Map p = (bitTest s.l1Map p || mask p))
  (hmask : ∀ (p : Nat), mask p = true → p / 512 = l2)
include h hl1 hmask

theorem Levels.fillBlock (hfull : ∀ (p : Nat), p / 512 = l2 → bitTest l1Map p = true)
    : Levels (l2FullPropagate { s with l1Map, l2Map := bitSet s.l2Map l2 } l2) := by
  have hother : ∀ (idx : Nat), idx ≠ l2
      → bitTest (bitSet s.l2Map l2) idx = bitTest s.l2Map idx := by
    intro idx hne
    simp [bitTest_bitSet, hne]
  rw [l2FullPropagate_eq]
  refine h.remap l1Map (bitSet s.l2Map l2) _ ?_ ?_ ?_ ?_
  . intro p _ hset
    rw [hl1, hset, Bool.true_or]
  . intro idx _ hset
    rw [bitTest_bitSet, hset, Bool.true_or]
  . intro idx _
    by_cases heq : idx = l2
    . subst heq
      exact .inr (iff_of_true (by simp [bitTest_bitSet]) hfull)
    . exact .inl ⟨hother idx heq, fun p hp => bitTest_of_mask hl1 hmask p (hp ▸ heq)⟩
  . intro l3 hl3
    unfold l2FullPropagate
    dsimp only
    by_cases heq : l3 = l2 / 1024
    . subst heq
      right
      split
      . next hall =>
        rw [wordsAll_allOnes_iff] at hall
        exact iff_of_true (by simp [bitTest_bitSet]) fun idx hidx => hall idx (by omega) (by omega)
      . next hall =>
        rw [wordsAll_allOnes_iff] at hall
        refine iff_of_false ?_ fun hl => hall fun idx _ _ => hl idx (by omega)
        -- The shard of the block did not become full, so it was not full before.
        intro hset
        rw [h.l3_iff _ hl3] at hset
        exact hall fun idx _ _ => by rw [bitTest_bitSet, hset idx (by omega), Bool.true_or]
    . refine .inl ⟨?_, fun idx hidx => hother idx (by omega)⟩
      split
      . simp [bitTest_bitSet, heq]
      . rfl

theorem Levels.setBlock (hfull : ¬∀ (p : Nat), p / 512 = l2 → bitTest l1Map p = true)
    : Levels { s with l1Map } := by
  refine h.remap l1Map s.l2Map s.l3Map ?_ (fun _ _ hset => hset) ?_
    fun _ _ => .inl ⟨rfl, fun _ _ => rfl⟩
  . intro p _ hset
    rw [hl1, hset, Bool.true_or]
  . intro idx hidx
    by_cases heq : idx = l2
    . subst heq
      refine .inr (iff_of_false (fun hset => hfull fun p hp => ?_) hfull)
      rw [hl1, (h.l2_iff idx hidx).1 hset p hp, Bool.true_or]
    . exact .inl ⟨rfl, fun p hp => bitTest_of_mask hl1 hmask p (hp ▸ heq)⟩

end

theorem blockRange_iff (start stop l2 p : Nat) (hlt : start < stop) (h1 : start / 512 ≤ l2)
    (h2 : l2 ≤ (stop - 1) / 512)
    : ((blockRange start stop l2).1 ≤ p ∧ p < (blockRange start stop l2).2)
        ↔
      (start ≤ p ∧ p < stop ∧ p / 512 = l2) := by
  unfold blockRange
  dsimp only
  split <;> split <;> omega

namespace markAllocated

theorem block_marked (h : Levels s) (start stop l2 : Nat) (hlt : start < stop)
    (h1 : start / 512 ≤ l2) (h2 : l2 ≤ (stop - 1) / 512) (hl2 : l2 < s.totalL2Bits)
    : Marked s (block start stop l2 s)
        (fun p => bitTest s.l1Map p || decide (start ≤ p ∧ p < stop ∧ p / 512 = l2)) := by
  have hl1 : ∀ (p : Nat),
      bitTest (bitsSet s.l1Map (blockRange start stop l2).1 (blockRange start stop l2).2) p
        =
      (bitTest s.l1Map p || decide (start ≤ p ∧ p < stop ∧ p / 512 = l2)) := by
    intro p
    rw [bitTest_bitsSet]
    simp only [blockRange_iff start stop l2 p hlt h1 h2]
  have hmask : ∀ (p : Nat), decide (start ≤ p ∧ p < stop ∧ p / 512 = l2) = true → p / 512 = l2 := by
    intro p hp
    simp only [decide_eq_true_eq] at hp
    exact hp.right.right
  unfold block
  rw [h.ensureL2Init_eq hl2]
  dsimp only
  split
  . next hfull =>
    rw [l2BlockFull_iff] at hfull
    have hlevels := h.fillBlock hl1 hmask hfull
    rw [l2FullPropagate_eq] at hlevels ⊢
    constructor
    . exact hlevels
    . constructor <;> simp
    . exact hl1
    . intro si
      rfl
    all_goals rfl
  . next hfull =>
    rw [l2BlockFull_iff] at hfull
    constructor
    . exact h.setBlock hl1 hmask hfull
    . constructor <;> simp
    . exact hl1
    . intro si
      rfl
    all_goals rfl

end markAllocated

theorem marked_forRange {block : Nat → State → State} (g : Bool → Bool → Bool)
    (hkeep : ∀ b, g b false = b)
    (hjoin : ∀ a b c, g (g a b) c = g a (b || c)) (h : Levels s) (start n : Nat) (hn : 0 < n)
    (hblock : ∀ l2 t, start / 512 ≤ l2 → l2 ≤ (start + n - 1) / 512 → Levels t
      → t.bitmapPages = s.bitmapPages
      → Marked t (block l2 t)
      (fun p => g (bitTest t.l1Map p) (decide (start ≤ p ∧ p < start + n ∧ p / 512 = l2))))
    : Marked s (Loop.forRange block (start / 512) ((start + n - 1) / 512 + 1 - start / 512) s)
        (fun p => g (bitTest s.l1Map p) (decide (start ≤ p ∧ p < start + n))) := by
  -- After the blocks below `l2` the part of the range below block `l2` is done.
  have hloop := Loop.forRange_induct block
    (fun l2 s' => Marked s s'
      (fun p => g (bitTest s.l1Map p) (decide (start ≤ p ∧ p < start + n ∧ p / 512 < l2))))
    (start / 512) ((start + n - 1) / 512 + 1 - start / 512) s ?init ?step
  case init =>
    apply h.marked_refl.congr
    intro p
    have : ¬(start ≤ p ∧ p < start + n ∧ p / 512 < start / 512) := by omega
    simp [this, hkeep]
  case step =>
    intro l2 t h1 h2 ht
    apply (ht.trans (hblock l2 t h1 (by omega) ht.levels ht.frame.bitmapPages)).congr
    intro p
    rw [ht.l1_eq, hjoin, ← Bool.decide_or]
    congr 1
    apply decide_eq_decide.mpr
    omega
  apply hloop.congr
  intro p
  congr 1
  apply decide_eq_decide.mpr
  omega

theorem markAllocated_marked (h : Levels s) (start n : Nat) (hn : 0 < n)
    (hstop : start + n ≤ s.bitmapPages)
    : Marked s (markAllocated s start n)
        (fun p => bitTest s.l1Map p || decide (start ≤ p ∧ p < start + n)) := by
  refine marked_forRange (· || ·) Bool.or_false Bool.or_assoc h start n hn
    fun l2 t h1 h2 ht hpages => ?_
  have := ht.totalL2Bits_eq
  exact markAllocated.block_marked ht start (start + n) l2 (by omega) h1 h2 (by omega)

namespace markFree

theorem block_marked (h : Levels s) (start stop l2 : Nat) (hlt : start < stop)
    (h1 : start / 512 ≤ l2) (h2 : l2 ≤ (stop - 1) / 512) (hstop : stop ≤ s.bitmapPages)
    : Marked s (block start stop l2 s)
        (fun p => bitTest s.l1Map p && !decide (start ≤ p ∧ p < stop ∧ p / 512 = l2)) := by
  have hl2 : l2 < s.totalL2Bits := by
    have := h.totalL2Bits_eq
    omega
  have hl1 : ∀ (p : Nat),
      bitTest (bitsClear s.l1Map (blockRange start stop l2).1 (blockRange start stop l2).2) p
        =
      (bitTest s.l1Map p && !decide (start ≤ p ∧ p < stop ∧ p / 512 = l2)) := by
    intro p
    rw [bitTest_bitsClear]
    simp only [blockRange_iff start stop l2 p hlt h1 h2]
  unfold block
  rw [h.ensureL2Init_eq hl2]
  dsimp only
  refine ⟨h.remap _ _ _ ?_ ?_ ?_ ?_, by constructor <;> simp, hl1, fun _ => rfl, rfl, rfl⟩
  . intro p hp hset
    rw [hl1, hset, decide_eq_false (by omega)]
    rfl
  . intro idx hidx hset
    rw [bitTest_bitClear, hset, decide_eq_false (by omega)]
    rfl
  . intro idx hidx
    by_cases heq : idx = l2
    . -- The block lost its first page in the range.
      subst heq
      refine .inr (iff_of_false (by simp [bitTest_bitClear]) fun hall => ?_)
      have hp : start ≤ max start (idx * 512) ∧ max start (idx * 512) < stop
          ∧ max start (idx * 512) / 512 = idx := by omega
      have := hall (max start (idx * 512)) hp.right.right
      rw [hl1] at this
      simp [hp] at this
    . refine .inl ⟨by simp [bitTest_bitClear, heq], fun p hp => ?_⟩
      rw [hl1, decide_eq_false (by omega), Bool.not_false, Bool.and_true]
  . intro l3 _
    by_cases heq : l3 = l2 / 1024
    . subst heq
      refine .inr (iff_of_false (by simp [bitTest_bitClear]) fun hall => ?_)
      have := hall l2 rfl
      simp [bitTest_bitClear] at this
    . refine .inl ⟨by simp [bitTest_bitClear, heq], fun idx hidx => ?_⟩
      rw [bitTest_bitClear, decide_eq_false (by omega), Bool.not_false, Bool.and_true]

end markFree

theorem markFree_marked (h : Levels s) (start n : Nat) (hn : 0 < n)
    (hstop : start + n ≤ s.bitmapPages)
    : Marked s (markFree s start n)
        (fun p => bitTest s.l1Map p && !decide (start ≤ p ∧ p < start + n)) := by
  refine marked_forRange (fun b c => b && !c) (by simp) (by simp [Bool.and_assoc]) h start n hn
    fun l2 t h1 h2 ht hpages => ?_
  exact markFree.block_marked ht start (start + n) l2 (by omega) h1 h2 (hpages ▸ hstop)

end PMM
