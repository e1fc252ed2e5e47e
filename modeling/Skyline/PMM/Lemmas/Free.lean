import Skyline.PMM.Lemmas.Request

/-!
This module contains the specification of the releases.
-/

namespace PMM

structure Releasable (bad : Set Nat) (s : State) (ptr n : Nat) : Prop where
  aligned : ptr / 4096 ∉ bad → ptr % 4096 = 0
  ptr_pos : 0 < ptr
  n_pos : 0 < n
  lt : ∀ (p : Nat), p ∈ pagesAt ptr n → p < s.bitmapPages
  out : ∀ (p : Nat), p ∉ bad → p ∈ pagesAt ptr n → p ∉ avail s

variable {s : State} {n : Nat}

section

variable {bad : Set Nat}

theorem used_of_not_avail {p : Nat} (hlt : p < s.bitmapPages) (hp : p ∉ avail s)
    : bitTest s.l1Map p = true := by
  by_contra hclear
  simp only [Bool.not_eq_true] at hclear
  exact hp (Or.inl ⟨hlt, hclear⟩)

section

variable {s1 : State} {start : Nat}
  (hmark : Marked s s1 fun p => bitTest s.l1Map p && !decide (start ≤ p ∧ p < start + n))
include hmark

theorem Marked.l1_Ico (p : Nat)
    : bitTest s1.l1Map p = (bitTest s.l1Map p && !decide (p ∈ Finset.Ico start (start + n))) := by
  rw [hmark.l1_eq]
  simp only [Finset.mem_Ico]

theorem Marked.counts
    (si : Nat) (hs : Geometry s) (hinside : Finset.Ico start (start + n) ⊆ shardPages s si)
    (hset : ∀ (p : Nat), p ∈ Finset.Ico start (start + n) → bitTest s.l1Map p = true)
    (hc : Counts s) : Counts (shardFreeAdd s1 si n) := by
  have hl1 := hmark.l1_Ico
  have hframe := shardFreeAdd_frame s1 si n
  constructor
  . intro idx hidx
    rw [hframe.shardPages_eq, hmark.frame.shardPages_eq]
    have hold := hc.shard_eq (show idx < s.shardCount by rw [← hmark.frame.shardCount]; exact hidx)
    have hnew := clearIn_clear _ _ (shardPages s idx) _ hl1 hset
    have hbound := clearIn_shardPages_le s s1.l1Map idx
    simp only [shardFreeAdd, State.setShard]
    split
    . next heq =>
      subst heq
      dsimp only
      rw [Finset.inter_eq_left.mpr hinside, Nat.card_Ico] at hnew
      rw [hmark.shardFree_eq, hold, fetchAdd_eq _ _ (by omega), hnew]
      omega
    . next hne =>
      have hempty : Finset.Ico start (start + n) ∩ shardPages s idx = ∅ := by
        rw [← Finset.disjoint_iff_inter_eq_empty, Finset.disjoint_left]
        intro p h1 h2
        have := hinside h1
        rw [mem_shardPages] at this h2
        omega
      rw [hempty, Finset.card_empty] at hnew
      rw [hmark.shardFree_eq, hold]
      omega
  . rw [hframe.allPages_eq, hmark.frame.allPages_eq]
    have hold := hc.global_eq
    have hnew := clearIn_clear _ _ (allPages s) _ hl1 hset
    have hall : Finset.Ico start (start + n) ∩ allPages s = Finset.Ico start (start + n) := by
      rw [Finset.inter_eq_left]
      intro p hp
      rw [mem_allPages]
      exact ((mem_shardPages s si p).mp (hinside hp)).left
    have hbound := clearIn_allPages_le s hs s1.l1Map
    rw [hall, Nat.card_Ico] at hnew
    simp only [shardFreeAdd, State.setShard]
    rw [hmark.freePages_eq, hold, fetchAdd_eq _ _ (by omega), hnew]
    omega

theorem Marked.changed
    (h : Inv bad s) (si : Nat) (hinside : Finset.Ico start (start + n) ⊆ shardPages s si)
    (hout : ∀ (p : Nat), p ∉ bad → p ∈ Finset.Ico start (start + n) → p ∉ avail s)
    : Changed bad s (shardFreeAdd s1 si n) (avail s ∪ Finset.Ico start (start + n)) := by
  have hlt : ∀ (p : Nat), p ∈ Finset.Ico start (start + n) → p < s.bitmapPages := by
    intro p hp
    exact ((mem_shardPages s si p).mp (hinside hp)).left
  have hl1 := hmark.l1_Ico
  have hframe := shardFreeAdd_frame s1 si n
  have hcached : ∀ (cpu ptr : Nat), ptr / 4096 ∉ bad → ptr ∈ s.pmmCache cpu →
      ptr / 4096 ∉ Finset.Ico start (start + n) := by
    intro cpu ptr hbad hptr hp
    apply hout _ hbad hp
    right
    refine ⟨cpu, ?_⟩
    have := h.caches.aligned cpu ptr hbad hptr
    rw [show ptr / 4096 * 4096 = ptr by omega]
    exact hptr
  have hcache : (shardFreeAdd s1 si n).pmmCache = s.pmmCache := hmark.pmmCache_eq
  constructor
  . constructor
    . exact hmark.levels.of_maps_eq hframe rfl rfl rfl rfl
    . constructor
      . rw [hcache, hframe.bitmapPages, hmark.frame.bitmapPages]
        exact h.caches.lt
      . rw [hcache]
        exact h.caches.once
      . rw [hcache]
        exact h.caches.disjoint
      . rw [hcache]
        exact h.caches.aligned
      . intro cpu ptr hbad hptr
        rw [hcache] at hptr
        have hused := h.caches.used cpu ptr hbad hptr
        show bitTest s1.l1Map (ptr / 4096) = true
        simp only [hl1, hused, hcached cpu ptr hbad hptr, decide_false,
          Bool.not_false, Bool.and_true]
  . exact hmark.frame.trans hframe
  . intro p hbad
    rw [Set.mem_union, mem_avail, mem_avail, hcache, hframe.bitmapPages, hmark.frame.bitmapPages]
    show (p < s.bitmapPages ∧ bitTest s1.l1Map p = false) ∨ _ ↔ _
    simp only [hl1, Bool.and_eq_false_iff, Bool.not_eq_false', decide_eq_true_eq, Finset.mem_coe]
    constructor
    . rintro (⟨hp, hclear | hin⟩ | hp)
      . exact Or.inl (Or.inl ⟨hp, hclear⟩)
      . exact Or.inr hin
      . exact Or.inl (Or.inr hp)
    . rintro ((⟨hp, hclear⟩ | hp) | hin)
      . exact Or.inl ⟨hp, Or.inl hclear⟩
      . exact Or.inr hp
      . exact Or.inl ⟨hlt p hin, Or.inr hin⟩
  . intro hbad hc
    apply hmark.counts si h.levels.toGeometry hinside _ hc
    intro p hp
    exact used_of_not_avail (hlt p hp) (hout p (by simp [hbad]) hp)

end

theorem freeInShardLocked_changed (h : Inv bad s) (si start n : Nat) (hn : 0 < n)
    (hinside : Finset.Ico start (start + n) ⊆ shardPages s si)
    (hout : ∀ (p : Nat), p ∉ bad → p ∈ Finset.Ico start (start + n) → p ∉ avail s)
    : Changed bad s (freeInShardLocked s si start n) (avail s ∪ Finset.Ico start (start + n)) := by
  have hstop : start + n ≤ s.bitmapPages := by
    have hlast := hinside (show start + n - 1 ∈ _ by rw [Finset.mem_Ico]; omega)
    rw [mem_shardPages] at hlast
    omega
  have hchanged := (markFree_marked h.levels start n hn hstop).changed h si hinside hout
  unfold freeInShardLocked
  generalize markFree s start n = s1 at hchanged
  dsimp only
  split
  . -- The hint moves between the two, which makes no difference.
    have hhint := hchanged.inv.changed_of_eq (t := shardFreeAdd (s1.setHint si start) si n)
      ?_ rfl rfl rfl rfl ?_ rfl rfl
    . exact (hchanged.trans hhint).congr hchanged.mem_iff
    . constructor
      all_goals first | rfl | skip
      all_goals
        intro idx
        simp only [shardFreeAdd, State.setHint, State.setShard]
        split <;> simp_all
    . intro idx
      simp only [shardFreeAdd, State.setHint, State.setShard]
      split <;> simp_all
  . exact hchanged

theorem pcpDrain_changed (h : Inv bad s) (cpu n : Nat)
    : Changed bad s (pcpDrain s cpu n) (avail s) := by
  induction n generalizing s with
  | zero => exact Changed.refl h
  | succ _ ih =>
    unfold pcpDrain
    split
    . exact Changed.refl h
    . next ptr rest hcache =>
      have hpop := h.pop cpu ptr rest hcache
      have hlt := h.caches.lt cpu ptr (by simp [hcache])
      have hbit : ¬ptr / 4096 ≥ (s.setCache cpu rest).bitmapPages := by
        rw [hpop.changed.frame.bitmapPages]
        omega
      have hpage : Finset.Ico (ptr / 4096) (ptr / 4096 + 1) = pagesAt ptr 1 := rfl
      have hfree := freeInShardLocked_changed hpop.changed.inv (ptr / 4096 / 524288) (ptr / 4096) 1
        (by omega) ?inside ?out
      case inside =>
        intro p hp
        rw [Finset.mem_Ico] at hp
        rw [mem_shardPages, hpop.changed.frame.bitmapPages]
        omega
      case out =>
        intro p hbad hp
        rw [hpop.changed.mem_iff p hbad, Set.mem_sdiff]
        rw [hpage] at hp
        simp only [Finset.mem_coe, hp, not_true, and_false, not_false_iff]
      have hboth : Changed bad s
          (freeInShardLocked (s.setCache cpu rest) (ptr / 4096 / 524288) (ptr / 4096) 1)
          (avail s) := by
        apply (hpop.changed.trans hfree).congr
        intro p hbad
        rw [Set.mem_union, hpop.changed.mem_iff p hbad, hpage, Set.mem_sdiff, Finset.mem_coe]
        by_cases hp : p ∈ pagesAt ptr 1
        . simp [hp, hpop.inside p hbad hp]
        . simp [hp]
      dsimp only
      rw [if_neg hbit]
      exact (hboth.trans (ih hboth.inv)).congr hboth.mem_iff

theorem freeShared_changed (h : Inv bad s) (ptr n : Nat) (hr : Releasable bad s ptr n)
    : Changed bad s (freeShared s ptr n) (avail s ∪ pagesAt ptr n) := by
  have hn := hr.n_pos
  have hlast : ptr / 4096 + n ≤ s.bitmapPages := by
    have := hr.lt (ptr / 4096 + n - 1) (by rw [pagesAt, Finset.mem_Ico]; omega)
    omega
  unfold freeShared
  dsimp only
  rw [if_neg (by omega), if_neg (by omega)]
  generalize hstart : ptr / 4096 = start at hlast
  have hpages : pagesAt ptr n = Finset.Ico start (start + n) := by rw [pagesAt, hstart]
  -- After the shards below `si` the part of the range in them is back.
  have hloop := Loop.forRange_induct (freeShared.freeFrom start (start + n))
    (fun si s' => Changed bad s s' (avail s ∪ Finset.Ico start (min (start + n) (si * 524288))))
    (start / 524288) ((start + n - 1) / 524288 + 1 - start / 524288) s ?init ?step
  case init =>
    apply (Changed.refl h).congr
    intro p _
    rw [Finset.Ico_eq_empty (by omega), Finset.coe_empty, Set.union_empty]
  case step =>
    intro si t h1 h2 ht
    have hlo : (shardRange start (start + n) si).1 = max start (si * 524288) := by
      unfold shardRange
      dsimp only
      split <;> omega
    have hhi : (shardRange start (start + n) si).2 = min (start + n) ((si + 1) * 524288) := by
      unfold shardRange
      dsimp only
      split <;> omega
    unfold freeShared.freeFrom
    generalize shardRange start (start + n) si = range at hlo hhi
    obtain ⟨lo, hi⟩ := range
    dsimp only at hlo hhi ⊢
    have hico : lo + (hi - lo) = hi := by omega
    have hfree := freeInShardLocked_changed ht.inv si lo (hi - lo) (by omega) ?inside ?out
    case inside =>
      intro p hp
      rw [Finset.mem_Ico] at hp
      rw [mem_shardPages, ht.frame.bitmapPages]
      omega
    case out =>
      intro p hbad hp
      rw [Finset.mem_Ico] at hp
      rw [ht.mem_iff p hbad, Set.mem_union, Finset.mem_coe, Finset.mem_Ico]
      have hout := hr.out p hbad (by rw [hpages, Finset.mem_Ico]; omega)
      rintro (hp' | hp')
      . contradiction
      . omega
    apply (ht.trans hfree).congr
    intro p hbad
    rw [Set.mem_union, ht.mem_iff p hbad, hico, Set.mem_union, Set.mem_union, or_assoc,
      Finset.mem_coe, Finset.mem_coe, Finset.mem_coe, Finset.mem_Ico, Finset.mem_Ico,
      Finset.mem_Ico]
    apply or_congr_right
    omega
  apply hloop.congr
  intro p _
  rw [hpages, Set.mem_union, Set.mem_union, Finset.mem_coe, Finset.mem_coe, Finset.mem_Ico,
    Finset.mem_Ico]
  apply or_congr_right
  omega

theorem Inv.push (h : Inv bad s) (cpu ptr : Nat) (hr : Releasable bad s ptr 1)
    : Changed bad s (s.setCache cpu (ptr :: s.pmmCache cpu)) (avail s ∪ pagesAt ptr 1) := by
  have hmem : ptr / 4096 ∈ pagesAt ptr 1 := by simp [pagesAt_one]
  have hlt := hr.lt _ hmem
  have hcache : (s.setCache cpu (ptr :: s.pmmCache cpu)).pmmCache
      = fun idx => if idx = cpu then [ptr] ++ s.pmmCache cpu else s.pmmCache idx := rfl
  have hframe := setCache_frame s cpu (ptr :: s.pmmCache cpu)
  have hcaches : Caches bad (s.setCache cpu (ptr :: s.pmmCache cpu)) := by
    apply h.caches.append hframe cpu [ptr] hcache
    . exact fun p hp => hp
    . intro ptr' hptr'
      rw [List.mem_singleton] at hptr'
      rw [hptr']
      exact hlt
    . simp
    . intro ptr' idx hbad hptr' hold
      rw [List.mem_singleton] at hptr'
      subst hptr'
      apply hr.out _ hbad hmem
      right
      refine ⟨idx, ?_⟩
      have := hr.aligned hbad
      rw [show ptr' / 4096 * 4096 = ptr' by omega]
      exact hold
    . intro ptr' hbad hptr'
      rw [List.mem_singleton] at hptr'
      rw [hptr'] at hbad ⊢
      exact hr.aligned hbad
    . intro ptr' hbad hptr'
      rw [List.mem_singleton] at hptr'
      rw [hptr'] at hbad ⊢
      have hset : bitTest s.l1Map (ptr / 4096) = true := used_of_not_avail hlt (hr.out _ hbad hmem)
      exact hset
  constructor
  . exact ⟨h.levels.of_maps_eq hframe rfl rfl rfl rfl, hcaches⟩
  . exact hframe
  . intro p hbad
    rw [Set.mem_union, mem_avail, mem_avail, pagesAt_one, Finset.coe_singleton,
      Set.mem_singleton_iff, hcache]
    simp only [mem_appended, List.mem_singleton]
    show (p < s.bitmapPages ∧ bitTest s.l1Map p = false) ∨ _ ↔ _
    constructor
    . rintro (hp | ⟨idx, ⟨_, hp⟩ | hp⟩)
      . exact Or.inl (Or.inl hp)
      . exact Or.inr (by omega)
      . exact Or.inl (Or.inr ⟨idx, hp⟩)
    . rintro ((hp | ⟨idx, hp⟩) | hp)
      . exact Or.inl hp
      . exact Or.inr ⟨idx, Or.inr hp⟩
      . have haligned := hr.aligned (by rw [← hp]; exact hbad)
        exact Or.inr ⟨cpu, Or.inl ⟨rfl, by omega⟩⟩
  . exact fun _ hc => hc.of_eq hframe rfl (fun _ => rfl) rfl

theorem Releasable.of_changed {s' : State} {ptr : Nat} (h : Releasable bad s ptr n)
    (hchanged : Changed bad s s' (avail s)) : Releasable bad s' ptr n where
  __ := h
  lt := by
    rw [hchanged.frame.bitmapPages]
    exact h.lt
  out := by
    intro p hbad hp
    rw [hchanged.mem_iff p hbad]
    exact h.out p hbad hp

theorem free_changed (h : Inv bad s) (cpu : Option Nat) (ptr n : Nat)
    (hr : Releasable bad s ptr n) : Changed bad s (free s cpu ptr n) (avail s ∪ pagesAt ptr n) := by
  have h1 := hr.ptr_pos
  have h2 := hr.n_pos
  unfold free
  rw [if_neg (by omega)]
  split
  . exact freeShared_changed h ptr n hr
  . next cpu hcpu =>
    have hn : n = 1 := by
      split at hcpu
      . assumption
      . contradiction
    subst hn
    dsimp only
    split
    . exact h.push cpu ptr hr
    . have hdrain := pcpDrain_changed h cpu 64
      have hpush := hdrain.inv.push cpu ptr (hr.of_changed hdrain)
      apply (hdrain.trans hpush).congr
      intro p hbad
      rw [Set.mem_union, Set.mem_union, hdrain.mem_iff p hbad]

theorem freeBlock_changed (h : Inv bad s) (ptr n : Nat) (hr : Releasable bad s ptr n)
    (hstart : ptr / 4096 % n = 0) (hn : n ∣ 524288)
    : Changed bad s (freeBlock s ptr n) (avail s ∪ pagesAt ptr n) := by
  have h1 := hr.ptr_pos
  have h2 := hr.n_pos
  have hlast : ptr / 4096 + n ≤ s.bitmapPages := by
    have := hr.lt (ptr / 4096 + n - 1) (by rw [pagesAt, Finset.mem_Ico]; omega)
    omega
  unfold freeBlock
  dsimp only
  rw [if_neg (by omega), if_neg (by omega), if_neg (by omega)]
  apply freeInShardLocked_changed h _ _ _ h2
  . intro p hp
    have hlt := hr.lt p hp
    rw [Finset.mem_Ico] at hp
    rw [mem_shardPages]
    refine ⟨hlt, ?_⟩
    -- The block number `k` and the number of blocks in a shard fix the shard.
    obtain ⟨c, hc⟩ := hn
    obtain ⟨k, hk⟩ := Nat.dvd_of_mod_eq_zero hstart
    have hp' : p / n = k := by
      rw [Nat.div_eq_iff h2]
      constructor
      . rw [Nat.mul_comm]
        omega
      . rw [Nat.mul_comm]
        omega
    rw [hc, ← Nat.div_div_eq_div_mul, ← Nat.div_div_eq_div_mul, hp', hk,
      Nat.mul_div_cancel_left _ h2]
  . exact hr.out

end

end PMM
