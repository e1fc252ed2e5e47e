import Skyline.PMM.Lemmas.Counts

/-!
This module contains the effect of the allocations that run under shard locks.
-/

namespace PMM

def pagesAt (ptr n : Nat) : Finset Nat :=
  Finset.Ico (ptr / 4096) (ptr / 4096 + n)

theorem pagesAt_mul (bit n : Nat) : pagesAt (bit * 4096) n = Finset.Ico bit (bit + n) := by
  simp [pagesAt]

structure Took (s s' : State) (taken : Finset Nat) : Prop where
  levels : Levels s'
  frame : Frame s s'
  l1_eq : ∀ (p : Nat), bitTest s'.l1Map p = (bitTest s.l1Map p || decide (p ∈ taken))
  clear : ∀ (p : Nat), p ∈ taken → p < s.bitmapPages ∧ bitTest s.l1Map p = false
  shardFree_eq : ∀ (si : Nat), (s'.shards si).freePages = (s.shards si).freePages
  freePages_eq : s'.freePages = s.freePages

variable {s s' : State} {taken : Finset Nat}

theorem Frame.shardPages_eq (h : Frame s s') (si : Nat)
    : shardPages s' si = shardPages s si := by
  simp only [shardPages, h.bitmapPages]

theorem Frame.allPages_eq (h : Frame s s') : allPages s' = allPages s := by
  simp only [allPages, h.bitmapPages]

theorem Took.refl (h : Levels s) : Took s s ∅ where
  levels := h
  frame := Frame.refl s
  l1_eq := by simp
  clear := by simp
  shardFree_eq := fun _ => rfl
  freePages_eq := rfl

section

variable {s1 s2 s3 : State} {a b : Finset Nat} (h1 : Took s1 s2 a) (h2 : Took s2 s3 b)
include h1 h2

theorem Took.trans
    : Took s1 s3 (a ∪ b) where
  levels := h2.levels
  frame := h1.frame.trans h2.frame
  l1_eq := by
    intro p
    rw [h2.l1_eq, h1.l1_eq, Bool.or_assoc]
    congr 1
    rw [← Bool.decide_or]
    simp only [Finset.mem_union]
  clear := by
    intro p hp
    rw [Finset.mem_union] at hp
    cases hp with
    | inl hp => exact h1.clear p hp
    | inr hp =>
      have := h2.clear p hp
      rw [h1.frame.bitmapPages, h1.l1_eq, Bool.or_eq_false_iff] at this
      exact ⟨this.left, this.right.left⟩
  shardFree_eq := fun si => (h2.shardFree_eq si).trans (h1.shardFree_eq si)
  freePages_eq := h2.freePages_eq.trans h1.freePages_eq

theorem Took.disjoint
    : Disjoint a b := by
  rw [Finset.disjoint_left]
  intro p ha hb
  have := (h2.clear p hb).right
  rw [h1.l1_eq] at this
  simp [ha] at this

end

theorem Took.of_eq {t : State} (h : Took s s' taken)
    (hframe : Frame s' t) (hinit : t.initMap = s'.initMap) (hl1 : t.l1Map = s'.l1Map)
    (hl2 : t.l2Map = s'.l2Map) (hl3 : t.l3Map = s'.l3Map)
    (hshard : ∀ (si : Nat), (t.shards si).freePages = (s'.shards si).freePages)
    (hfree : t.freePages = s'.freePages) : Took s t taken where
  levels := h.levels.of_maps_eq hframe hinit hl1 hl2 hl3
  frame := h.frame.trans hframe
  l1_eq := by
    rw [hl1]
    exact h.l1_eq
  clear := h.clear
  shardFree_eq := fun si => (hshard si).trans (h.shardFree_eq si)
  freePages_eq := hfree.trans h.freePages_eq

theorem setShard_frame (s : State) (si : Nat) (shard : Shard)
    (hfirst : shard.firstPage = (s.shards si).firstPage)
    (hn : shard.npages = (s.shards si).npages) : Frame s (s.setShard si shard) := by
  constructor
  all_goals first | rfl | skip
  all_goals
    intro idx
    simp only [State.setShard]
    split
    . next heq =>
      rw [heq]
      assumption
    . rfl

theorem Took.setHint (h : Took s s' taken) (si hint : Nat)
    : Took s (s'.setHint si hint) taken := by
  apply h.of_eq (setShard_frame s' si { s'.shards si with hint } rfl rfl) rfl rfl rfl rfl
  . intro idx
    simp only [State.setShard]
    split
    . next heq => rw [heq]
    . rfl
  . rfl

theorem Took.setCache (h : Took s s' taken) (cpu : Nat)
    (pages : List Nat) : Took s (s'.setCache cpu pages) taken :=
  h.of_eq (by constructor <;> simp [State.setCache]) rfl rfl rfl rfl (fun _ => rfl) rfl

theorem markAllocated_took (h : Levels s) (bit n : Nat) (hn : 0 < n)
    (hstop : bit + n ≤ s.bitmapPages)
    (hclear : ∀ (p : Nat), bit ≤ p → p < bit + n → bitTest s.l1Map p = false)
    : Took s (markAllocated s bit n) (Finset.Ico bit (bit + n)) := by
  have hmark := markAllocated_marked h bit n hn hstop
  constructor
  . exact hmark.levels
  . exact hmark.frame
  . intro p
    rw [hmark.l1_eq]
    simp only [Finset.mem_Ico]
  . intro p hp
    rw [Finset.mem_Ico] at hp
    exact ⟨by omega, hclear p hp.left hp.right⟩
  . exact hmark.shardFree_eq
  . exact hmark.freePages_eq

structure Allocated (s s' : State) (si n ptr : Nat) : Prop where
  took : Took s s' (pagesAt ptr n)
  inside : pagesAt ptr n ⊆ shardPages s si
  pos : 0 < n
  aligned : ptr % 4096 = 0
  pmmCache_eq : s'.pmmCache = s.pmmCache

theorem scanAround_zero (s : State) (start hint stop : Nat)
    : (scanAround s start hint stop 0).1 = none := by
  simp [scanAround, scanForRun]

theorem allocInShardLocked_ok (h : Levels s) (si n : Nat) (hsi : si < s.shardCount)
    : Loop.Outcome (· = s) (fun ptr s' => Allocated s s' si n ptr) (allocInShardLocked s si n) := by
  have hfirst := h.firstPage_eq si
  have hnp := h.npages_eq si
  unfold allocInShardLocked
  dsimp only
  split
  . rfl
  . generalize hhint : (if (s.shards si).hint < (s.shards si).firstPage
        ∨ (s.shards si).hint > (s.shards si).firstPage + (s.shards si).npages then
        (s.shards si).firstPage else (s.shards si).hint) = hint
    have hshard : si * 524288 + (s.shards si).npages ≤ s.bitmapPages := by
      have := h.totalL2Bits_eq
      have := h.totalL3Bits_eq
      have := h.shardCount_eq
      omega
    have hscan := scanAround_ok h (s.shards si).firstPage hint
      ((s.shards si).firstPage + (s.shards si).npages) n (by split at hhint <;> omega)
      (by split at hhint <;> omega) (by omega)
    have hzero := scanAround_zero s (s.shards si).firstPage hint
      ((s.shards si).firstPage + (s.shards si).npages)
    cases Nat.eq_zero_or_pos n with
    | inl hn =>
      subst hn
      generalize scanAround s (s.shards si).firstPage hint
        ((s.shards si).firstPage + (s.shards si).npages) 0 = res at hscan hzero
      match res with
      | (none, s') => exact hscan.state_eq
      | (some bit, s') => contradiction
    | inr hn =>
      clear hzero
      generalize scanAround s (s.shards si).firstPage hint
        ((s.shards si).firstPage + (s.shards si).npages) n = res at hscan
      match res with
      | (none, s') => exact hscan.state_eq
      | (some bit, s') =>
        obtain ⟨hs', hfound⟩ := hscan
        simp only at hs'
        subst hs'
        obtain ⟨h1, h2, hfree⟩ := hfound bit rfl
        have hmark := markAllocated_marked h bit n hn (by omega)
        constructor
        . rw [pagesAt_mul]
          exact (markAllocated_took h bit n hn (by omega) hfree).setHint _ _
        . rw [pagesAt_mul]
          intro p hp
          rw [Finset.mem_Ico] at hp
          rw [mem_shardPages]
          omega
        . exact hn
        . omega
        . exact hmark.pmmCache_eq

def cachePages (ptrs : List Nat) : Finset Nat :=
  (ptrs.map (· / 4096)).toFinset

structure Filled (s s' : State) (cpu si : Nat) (fresh : List Nat) : Prop where
  took : Took s s' (cachePages fresh)
  inside : cachePages fresh ⊆ shardPages s si
  card : (cachePages fresh).card = fresh.length
  aligned : ∀ (ptr : Nat), ptr ∈ fresh → ptr % 4096 = 0
  pmmCache_eq : s'.pmmCache
    = fun idx => if idx = cpu then fresh ++ s.pmmCache cpu else s.pmmCache idx

theorem Filled.nil (h : Levels s) (cpu si : Nat) : Filled s s cpu si [] := by
  constructor
  . exact Took.refl h
  . simp [cachePages]
  . simp [cachePages]
  . simp
  . funext idx
    simp only [List.nil_append]
    split
    . next heq => rw [heq]
    . rfl

theorem pcpFill_ok (h : Levels s) (cpu si n : Nat) (hsi : si < s.shardCount)
    : ∃ (fresh : List Nat),
        Filled s (pcpFill s cpu si n).2 cpu si fresh ∧ (pcpFill s cpu si n).1 = fresh.length
          ∧ fresh.length ≤ n := by
  induction n generalizing s with
  | zero => exact ⟨[], Filled.nil h cpu si, rfl, by simp⟩
  | succ _ ih =>
    unfold pcpFill
    split
    . have halloc := allocInShardLocked_ok h si 1 hsi
      generalize allocInShardLocked s si 1 = res at halloc
      match res with
      | (none, s') =>
        simp only [Loop.Outcome] at halloc
        subst halloc
        exact ⟨[], Filled.nil h cpu si, rfl, by simp⟩
      | (some extra, s') =>
        simp only [Loop.Outcome] at halloc
        dsimp only
        have htook := halloc.took.setCache cpu (extra :: s'.pmmCache cpu)
        have hsingle : pagesAt extra 1 = {extra / 4096} := by
          ext p
          simp only [pagesAt, Finset.mem_Ico, Finset.mem_singleton]
          omega
        obtain ⟨fresh, hfilled, hlen, hle⟩ :=
          ih htook.levels (by rw [htook.frame.shardCount]; exact hsi)
        have hpages : cachePages (fresh ++ [extra]) = pagesAt extra 1 ∪ cachePages fresh := by
          ext p
          rw [hsingle]
          simp [cachePages]
        refine ⟨fresh ++ [extra], ?_, by simp [hlen], by simp; omega⟩
        constructor
        . rw [hpages]
          exact htook.trans hfilled.took
        . rw [hpages]
          intro p hp
          rw [Finset.mem_union] at hp
          cases hp with
          | inl hp => exact halloc.inside hp
          | inr hp =>
            have := hfilled.inside hp
            rw [htook.frame.shardPages_eq] at this
            exact this
        . rw [hpages, Finset.card_union_of_disjoint (htook.disjoint hfilled.took), hfilled.card,
            hsingle]
          simp [Nat.add_comm]
        . intro ptr hptr
          simp only [List.mem_append, List.mem_singleton] at hptr
          cases hptr with
          | inl hptr => exact hfilled.aligned ptr hptr
          | inr hptr =>
            rw [hptr]
            exact halloc.aligned
        . rw [hfilled.pmmCache_eq]
          funext idx
          simp only [State.setCache, halloc.pmmCache_eq]
          split <;> simp
    . exact ⟨[], Filled.nil h cpu si, rfl, by simp⟩

theorem request2MBWord_ok (h : Levels s) (w fuel : Nat) (pending : BitVec 64)
    : Loop.Outcome (· = s)
        (fun l2 s' => s' = s ∧ l2 / 64 = w ∧ l2 * 512 + 512 ≤ s.bitmapPages
          ∧ ∀ (p : Nat), p / 512 = l2 → bitTest s.l1Map p = false)
        (request2MBWord s w fuel pending) := by
  induction fuel generalizing pending with
  | zero => exact rfl
  | succ _ ih =>
    unfold request2MBWord
    split
    . exact rfl
    . next hpending =>
      dsimp only
      split
      . exact ih _
      . next hlt =>
        have hctz : pending.ctz.toNat < 64 :=
          BitVec.lt_def.mp (BitVec.ctz_lt_iff_ne_zero.mpr hpending)
        rw [h.ensureL2Init_eq (by have := h.totalL2Bits_eq; omega)]
        split
        . next hall =>
          rw [wordsAll_zero_iff] at hall
          refine ⟨rfl, by omega, by omega, ?_⟩
          intro p hp
          exact hall p (by omega) (by omega)
        . exact ih _

theorem l2FullPropagate_pmmCache (s : State) (l2 : Nat)
    : (l2FullPropagate s l2).pmmCache = s.pmmCache := by
  rw [l2FullPropagate_eq]

theorem takeBlock_took (h : Levels s) (l2 : Nat) (hlt : l2 * 512 + 512 ≤ s.bitmapPages)
    (hclear : ∀ (p : Nat), p / 512 = l2 → bitTest s.l1Map p = false)
    : Took s
        (l2FullPropagate
          { s with
            l1Map := bitsSet s.l1Map (l2 * 512) (l2 * 512 + 512)
            l2Map := bitSet s.l2Map l2
          }
          l2)
        (Finset.Ico (l2 * 512) (l2 * 512 + 512)) := by
  have hmask : ∀ (p : Nat), decide (l2 * 512 ≤ p ∧ p < l2 * 512 + 512) = true ↔ p / 512 = l2 := by
    intro p
    rw [decide_eq_true_iff]
    omega
  have hl1 := bitTest_bitsSet s.l1Map (l2 * 512) (l2 * 512 + 512)
  have hlevels := h.fillBlock hl1 (fun p => (hmask p).1) fun p hp => by
    rw [hl1, (hmask p).2 hp, Bool.or_true]
  rw [l2FullPropagate_eq] at hlevels ⊢
  constructor
  . exact hlevels
  . constructor <;> simp
  . intro p
    rw [bitTest_bitsSet]
    simp only [Finset.mem_Ico]
  . intro p hp
    rw [Finset.mem_Ico] at hp
    exact ⟨by omega, hclear p (by omega)⟩
  . intro si
    rfl
  . rfl

theorem blocksClear_ok (h : Levels s) (l2 n : Nat) (hn : l2 + n ≤ s.totalL2Bits)
    : (blocksClear s l2 n).2 = s
        ∧ ((blocksClear s l2 n).1 = true →
            ∀ (p : Nat), l2 * 512 ≤ p → p < (l2 + n) * 512 → bitTest s.l1Map p = false) := by
  induction n generalizing l2 with
  | zero =>
    refine ⟨rfl, ?_⟩
    intro _ p h1 h2
    omega
  | succ n ih =>
    unfold blocksClear
    rw [h.ensureL2Init_eq (by omega)]
    dsimp only
    split
    . next hall =>
      rw [wordsAll_zero_iff] at hall
      obtain ⟨hstate, hclear⟩ := ih (l2 + 1) (by omega)
      refine ⟨hstate, ?_⟩
      intro htrue p h1 h2
      rw [show l2 + (n + 1) = l2 + 1 + n by omega] at h2
      by_cases hp : p < (l2 + 1) * 512
      . exact hall p (by omega) (by omega)
      . exact hclear htrue p (Nat.le_of_not_lt hp) h2
    . simp

theorem takeShard_took (h : Levels s) (si : Nat)
    (hlt : si * 524288 + 524288 ≤ s.bitmapPages)
    (hclear : ∀ (p : Nat), si * 524288 ≤ p → p < si * 524288 + 524288 → bitTest s.l1Map p = false)
    : Took s
        { s with
          l1Map := bitsSet s.l1Map (si * 524288) (si * 524288 + 524288)
          l2Map := bitsSet s.l2Map (si * 1024) (si * 1024 + 1024)
          l3Map := bitSet s.l3Map si
        }
        (Finset.Ico (si * 524288) (si * 524288 + 524288)) := by
  have hout : ∀ (p : Nat), p / 524288 ≠ si →
      bitTest (bitsSet s.l1Map (si * 524288) (si * 524288 + 524288)) p = bitTest s.l1Map p := by
    intro p hp
    have : ¬(si * 524288 ≤ p ∧ p < si * 524288 + 524288) := by omega
    simp [bitTest_bitsSet, this]
  have hin : ∀ (p : Nat), p / 524288 = si →
      bitTest (bitsSet s.l1Map (si * 524288) (si * 524288 + 524288)) p = true := by
    intro p hp
    have : si * 524288 ≤ p ∧ p < si * 524288 + 524288 := by omega
    simp [bitTest_bitsSet, this]
  have hout2 : ∀ (l2 : Nat), l2 / 1024 ≠ si →
      bitTest (bitsSet s.l2Map (si * 1024) (si * 1024 + 1024)) l2 = bitTest s.l2Map l2 := by
    intro l2 hl2
    have : ¬(si * 1024 ≤ l2 ∧ l2 < si * 1024 + 1024) := by omega
    simp [bitTest_bitsSet, this]
  have hin2 : ∀ (l2 : Nat), l2 / 1024 = si →
      bitTest (bitsSet s.l2Map (si * 1024) (si * 1024 + 1024)) l2 = true := by
    intro l2 hl2
    have : si * 1024 ≤ l2 ∧ l2 < si * 1024 + 1024 := by omega
    simp [bitTest_bitsSet, this]
  constructor
  . refine h.remap _ _ _ ?_ ?_ ?_ ?_
    . intro p _ hset
      rw [bitTest_bitsSet, hset, Bool.true_or]
    . intro l2 _ hset
      rw [bitTest_bitsSet, hset, Bool.true_or]
    . intro l2 _
      by_cases hsi : l2 / 1024 = si
      . exact .inr (iff_of_true (hin2 l2 hsi) fun p hp => hin p (by omega))
      . exact .inl ⟨hout2 l2 hsi, fun p hp => hout p (by omega)⟩
    . intro l3 _
      by_cases hsi : l3 = si
      . subst hsi
        exact .inr (iff_of_true (by simp [bitTest_bitSet]) hin2)
      . exact .inl ⟨by simp [bitTest_bitSet, hsi], fun l2 hl2 => hout2 l2 (by omega)⟩
  . constructor <;> simp
  . intro p
    rw [bitTest_bitsSet]
    simp only [Finset.mem_Ico]
  . intro p hp
    rw [Finset.mem_Ico] at hp
    exact ⟨by omega, hclear p hp.left hp.right⟩
  . intro idx
    rfl
  . rfl

end PMM
