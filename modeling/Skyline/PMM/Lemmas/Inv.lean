import Skyline.PMM.Lemmas.Alloc

/-!
This module contains the invariant of the physical memory manager and the set of pages it has to
give.
-/

namespace PMM

structure Caches (bad : Set Nat) (s : State) : Prop where
  lt : ∀ (cpu ptr : Nat), ptr ∈ s.pmmCache cpu → ptr / 4096 < s.bitmapPages
  once : ∀ (cpu ptr : Nat), ptr / 4096 ∉ bad → (s.pmmCache cpu).count ptr ≤ 1
  disjoint : ∀ (cpu1 cpu2 ptr : Nat), ptr / 4096 ∉ bad → ptr ∈ s.pmmCache cpu1 →
    ptr ∈ s.pmmCache cpu2 → cpu1 = cpu2
  aligned : ∀ (cpu ptr : Nat), ptr / 4096 ∉ bad → ptr ∈ s.pmmCache cpu → ptr % 4096 = 0
  used : ∀ (cpu ptr : Nat), ptr / 4096 ∉ bad → ptr ∈ s.pmmCache cpu →
    bitTest s.l1Map (ptr / 4096) = true

structure Inv (bad : Set Nat) (s : State) : Prop where
  levels : Levels s
  caches : Caches bad s

def cached (s : State) : Set Nat :=
  { p | ∃ (cpu : Nat), p * 4096 ∈ s.pmmCache cpu }

def avail (s : State) : Set Nat :=
  { p | p < s.bitmapPages ∧ bitTest s.l1Map p = false } ∪ cached s

theorem mem_avail (s : State) (p : Nat)
    : p ∈ avail s
        ↔
      (p < s.bitmapPages ∧ bitTest s.l1Map p = false) ∨ ∃ (cpu : Nat), p * 4096 ∈ s.pmmCache cpu :=
  Iff.rfl

variable {bad : Set Nat} {s s' t : State}

theorem Inv.mono {bad' : Set Nat} (h : Inv bad s) (hsub : bad ⊆ bad') : Inv bad' s where
  levels := h.levels
  caches := {
    lt := h.caches.lt
    once := fun cpu ptr hgood => h.caches.once cpu ptr fun hbad => hgood (hsub hbad)
    disjoint := fun cpu1 cpu2 ptr hgood => h.caches.disjoint cpu1 cpu2 ptr
      fun hbad => hgood (hsub hbad)
    aligned := fun cpu ptr hgood => h.caches.aligned cpu ptr fun hbad => hgood (hsub hbad)
    used := fun cpu ptr hgood => h.caches.used cpu ptr fun hbad => hgood (hsub hbad)
  }

theorem Inv.avail_lt (h : Inv bad s) {p : Nat} (hp : p ∈ avail s)
    : p < s.bitmapPages := by
  rw [mem_avail] at hp
  cases hp with
  | inl hp => exact hp.left
  | inr hp =>
    obtain ⟨cpu, hcpu⟩ := hp
    have := h.caches.lt cpu _ hcpu
    omega

structure Changed (bad : Set Nat) (s s' : State) (pages : Set Nat) : Prop where
  inv : Inv bad s'
  frame : Frame s s'
  mem_iff : ∀ (p : Nat), p ∉ bad → (p ∈ avail s' ↔ p ∈ pages)
  counts : bad = ∅ → Counts s → Counts s'

theorem Changed.avail_eq {pages : Set Nat} (h : Changed ∅ s s' pages)
    : avail s' = pages := by
  ext p
  exact h.mem_iff p (by simp)

theorem Changed.refl (h : Inv bad s) : Changed bad s s (avail s) where
  inv := h
  frame := Frame.refl s
  mem_iff := fun _ _ => Iff.rfl
  counts := fun _ hc => hc

theorem Changed.trans {s1 s2 s3 : State} {a b : Set Nat}
    (h1 : Changed bad s1 s2 a) (h2 : Changed bad s2 s3 b) : Changed bad s1 s3 b where
  __ := h2
  frame := h1.frame.trans h2.frame
  counts := fun hbad hc => h2.counts hbad (h1.counts hbad hc)

theorem Changed.congr {a b : Set Nat} (h : Changed bad s s' a)
    (hab : ∀ (p : Nat), p ∉ bad → (p ∈ a ↔ p ∈ b)) : Changed bad s s' b where
  __ := h
  mem_iff := fun p hp => (h.mem_iff p hp).trans (hab p hp)

theorem Counts.of_eq (h : Counts s) (hframe : Frame s t) (hl1 : t.l1Map = s.l1Map)
    (hshard : ∀ (si : Nat), (t.shards si).freePages = (s.shards si).freePages)
    (hfree : t.freePages = s.freePages) : Counts t where
  shard := by
    intro si hsi
    rw [hshard, hl1, hframe.shardPages_eq]
    exact Owing.shard h si (by rw [← hframe.shardCount]; exact hsi)
  global := by
    rw [hfree, hl1, hframe.allPages_eq]
    exact Owing.global h

theorem Caches.of_le (h : Caches bad s) (hframe : Frame s t)
    (hcache : t.pmmCache = s.pmmCache)
    (hl1 : ∀ (p : Nat), bitTest s.l1Map p = true → bitTest t.l1Map p = true) : Caches bad t where
  lt := by
    rw [hcache, hframe.bitmapPages]
    exact h.lt
  once := by
    rw [hcache]
    exact h.once
  disjoint := by
    rw [hcache]
    exact h.disjoint
  aligned := by
    rw [hcache]
    exact h.aligned
  used := by
    intro cpu ptr hbad hptr
    rw [hcache] at hptr
    exact hl1 _ (h.used cpu ptr hbad hptr)

theorem mem_appended (cache : Nat → List Nat) (cpu idx ptr : Nat) (fresh : List Nat)
    : ptr ∈ (if idx = cpu then fresh ++ cache cpu else cache idx)
        ↔
      (idx = cpu ∧ ptr ∈ fresh) ∨ ptr ∈ cache idx := by
  split
  . next heq =>
    subst heq
    simp
  . next hne => simp [hne]

theorem Caches.append (h : Caches bad s) (hframe : Frame s t)
    (cpu : Nat) (fresh : List Nat)
    (hcache : t.pmmCache = fun idx => if idx = cpu then fresh ++ s.pmmCache cpu else s.pmmCache idx)
    (hl1 : ∀ (p : Nat), bitTest s.l1Map p = true → bitTest t.l1Map p = true)
    (hlt : ∀ (ptr : Nat), ptr ∈ fresh → ptr / 4096 < t.bitmapPages) (hnodup : fresh.Nodup)
    (hnew : ∀ (ptr idx : Nat), ptr / 4096 ∉ bad → ptr ∈ fresh → ptr ∉ s.pmmCache idx)
    (haligned : ∀ (ptr : Nat), ptr / 4096 ∉ bad → ptr ∈ fresh → ptr % 4096 = 0)
    (hused : ∀ (ptr : Nat), ptr / 4096 ∉ bad → ptr ∈ fresh → bitTest t.l1Map (ptr / 4096) = true)
    : Caches bad t where
  lt := by
    intro idx ptr hptr
    rw [hcache, mem_appended] at hptr
    rcases hptr with ⟨_, hptr⟩ | hptr
    . exact hlt ptr hptr
    . rw [hframe.bitmapPages]
      exact h.lt idx ptr hptr
  once := by
    intro idx ptr hbad
    have hold := h.once idx ptr hbad
    rw [hcache]
    dsimp only
    split
    . next heq =>
      subst heq
      rw [List.count_append]
      have hfresh := List.nodup_iff_count_le_one.mp hnodup ptr
      by_cases hptr : ptr ∈ fresh
      . rw [List.count_eq_zero_of_not_mem (hnew ptr idx hbad hptr)]
        exact hfresh
      . rw [List.count_eq_zero_of_not_mem hptr, Nat.zero_add]
        exact hold
    . exact hold
  disjoint := by
    intro cpu1 cpu2 ptr hbad h1 h2
    rw [hcache, mem_appended] at h1 h2
    rcases h1 with ⟨heq1, h1⟩ | h1 <;> rcases h2 with ⟨heq2, h2⟩ | h2
    . rw [heq1, heq2]
    . exact absurd h2 (hnew ptr cpu2 hbad h1)
    . exact absurd h1 (hnew ptr cpu1 hbad h2)
    . exact h.disjoint cpu1 cpu2 ptr hbad h1 h2
  aligned := by
    intro idx ptr hbad hptr
    rw [hcache, mem_appended] at hptr
    rcases hptr with ⟨_, hptr⟩ | hptr
    . exact haligned ptr hbad hptr
    . exact h.aligned idx ptr hbad hptr
  used := by
    intro idx ptr hbad hptr
    rw [hcache, mem_appended] at hptr
    rcases hptr with ⟨_, hptr⟩ | hptr
    . exact hused ptr hbad hptr
    . exact hl1 _ (h.used idx ptr hbad hptr)

theorem Inv.changed_of_eq (h : Inv bad s) (hframe : Frame s t)
    (hinit : t.initMap = s.initMap) (hl1 : t.l1Map = s.l1Map) (hl2 : t.l2Map = s.l2Map)
    (hl3 : t.l3Map = s.l3Map)
    (hshard : ∀ (si : Nat), (t.shards si).freePages = (s.shards si).freePages)
    (hfree : t.freePages = s.freePages) (hcache : t.pmmCache = s.pmmCache)
    : Changed bad s t (avail s) where
  inv := {
    levels := h.levels.of_maps_eq hframe hinit hl1 hl2 hl3
    caches := h.caches.of_le hframe hcache (by simp [hl1])
  }
  frame := hframe
  mem_iff := by
    intro p _
    rw [mem_avail, mem_avail, hl1, hcache, hframe.bitmapPages]
  counts := fun _ hc => hc.of_eq hframe hl1 hshard hfree

theorem shardRrFirst_changed (h : Inv bad s)
    : Changed bad s (shardRrFirst s).2 (avail s) :=
  h.changed_of_eq (by constructor <;> simp [shardRrFirst]) rfl rfl rfl rfl (fun _ => rfl) rfl rfl

theorem shardAt_lt (h : Geometry s) (first t : Nat) (hfirst : first < s.shardCount)
    (ht : t < s.shardCount) : shardAt s first t < s.shardCount := by
  have := h.shardCount_pos
  unfold shardAt
  split <;> omega

section Counts

theorem shardFreeSub_frame (s : State) (si n : Nat) : Frame s (shardFreeSub s si n) := by
  have := setShard_frame s si { s.shards si with freePages := fetchSub (s.shards si).freePages n }
    rfl rfl
  exact ⟨rfl, rfl, rfl, rfl, rfl, rfl, rfl, this.firstPage, this.npages⟩

theorem shardFreeAdd_frame (s : State) (si n : Nat) : Frame s (shardFreeAdd s si n) := by
  have := setShard_frame s si { s.shards si with freePages := fetchAdd (s.shards si).freePages n }
    rfl rfl
  exact ⟨rfl, rfl, rfl, rfl, rfl, rfl, rfl, this.firstPage, this.npages⟩

theorem Took.owing {taken : Finset Nat} (h : Took s s' taken) (hcounts : Counts s)
    : Owing s' (fun si => (taken ∩ shardPages s si).card) taken.card where
  shard := by
    intro si hsi
    rw [h.shardFree_eq, hcounts.shard_eq (by rw [← h.frame.shardCount]; exact hsi),
      h.frame.shardPages_eq]
    exact (clearIn_set _ _ _ taken h.l1_eq (fun p hp => (h.clear p hp).right)).symm
  global := by
    have hinter : taken ∩ allPages s = taken := by
      rw [Finset.inter_eq_left]
      intro p hp
      rw [mem_allPages]
      exact (h.clear p hp).left
    have hset := clearIn_set _ _ (allPages s) taken h.l1_eq (fun p hp => (h.clear p hp).right)
    rw [hinter] at hset
    rw [h.freePages_eq, hcounts.global_eq, h.frame.allPages_eq]
    exact hset.symm

theorem Owing.sub {debt : Nat → Nat} {total n : Nat} (h : Owing s debt total)
    (hs : Geometry s) (si : Nat) (hdebt : n ≤ debt si) (htotal : n ≤ total)
    (hle : debt si ≤ total) (hsmall : total ≤ 2 ^ 62)
    : Owing (shardFreeSub s si n) (fun idx => if idx = si then debt idx - n else debt idx)
        (total - n) where
  shard := by
    intro idx hidx
    simp only [shardFreeSub, State.setShard]
    split
    . next heq =>
      subst heq
      have hbound := clearIn_shardPages_le s s.l1Map idx
      dsimp only
      rw [h.shard idx hidx,
        show clearIn s.l1Map (shardPages s idx) + debt idx
          = clearIn s.l1Map (shardPages s idx) + (debt idx - n) + n by omega]
      rw [fetchSub_add _ _ (by omega)]
      rfl
    . exact h.shard idx hidx
  global := by
    have hbound := clearIn_allPages_le s hs s.l1Map
    simp only [shardFreeSub, State.setShard]
    rw [h.global,
      show clearIn s.l1Map (allPages s) + total
        = clearIn s.l1Map (allPages s) + (total - n) + n by omega]
    rw [fetchSub_add _ _ (by omega)]
    rfl

theorem Took.counts {taken : Finset Nat} (h : Took s s' taken) (hcounts : Counts s)
    (si : Nat) (hinside : taken ⊆ shardPages s si) : Counts (shardFreeSub s' si taken.card) := by
  have hbound : taken.card ≤ 2 ^ 62 := by
    have := Finset.card_le_card hinside
    simp only [shardPages, Nat.card_Ico] at this
    omega
  have hinter : taken ∩ shardPages s si = taken := Finset.inter_eq_left.mpr hinside
  have howing := (h.owing hcounts).sub h.levels.toGeometry si (n := taken.card) (by rw [hinter])
    (Nat.le_refl _) (by rw [hinter]) hbound
  apply howing.congr
  . intro idx hidx
    split
    . next heq => rw [heq, hinter, Nat.sub_self]
    . next hne =>
      rw [Finset.card_eq_zero, ← Finset.disjoint_iff_inter_eq_empty, Finset.disjoint_left]
      intro p h1 h2
      have := hinside h1
      rw [mem_shardPages] at this h2
      omega
  . exact Nat.sub_self _

end Counts

end PMM
