import Skyline.PMM.Lemmas.Inv

/-!
This module contains the specification of the requests.
-/

namespace PMM

structure Granted (bad : Set Nat) (s s' : State) (n ptr : Nat) : Prop where
  changed : Changed bad s s' (avail s \ pagesAt ptr n)
  inside : ∀ (p : Nat), p ∉ bad → p ∈ pagesAt ptr n → p ∈ avail s
  pos : 0 < n
  aligned : ptr / 4096 ∉ bad → ptr % 4096 = 0

def RequestOk (bad : Set Nat) (s : State) (n : Nat) (res : Option Nat × State) : Prop :=
  Loop.Outcome (fun s' => Changed bad s s' (avail s)) (fun ptr s' => Granted bad s s' n ptr) res

variable {s1 s2 s s' : State} {n ptr si cpu : Nat} {fresh : List Nat}

section

variable {bad : Set Nat}

theorem Granted.of_changed {s3 : State} (h1 : Changed bad s1 s2 (avail s1))
    (h2 : Granted bad s2 s3 n ptr) : Granted bad s1 s3 n ptr where
  __ := h2
  changed := by
    apply (h1.trans h2.changed).congr
    intro p hp
    rw [Set.mem_sdiff, Set.mem_sdiff, h1.mem_iff p hp]
  inside := by
    intro p hbad hp
    rw [← h1.mem_iff p hbad]
    exact h2.inside p hbad hp

theorem RequestOk.of_changed {res : Option Nat × State}
    (h1 : Changed bad s1 s2 (avail s1)) (h2 : RequestOk bad s2 n res) : RequestOk bad s1 n res := by
  match res with
  | (some ptr, s3) => exact Granted.of_changed h1 h2
  | (none, s3) =>
    have h2 : Changed bad s2 s3 (avail s2) := h2
    exact (h1.trans h2).congr h1.mem_iff

theorem card_pagesAt (ptr n : Nat) : (pagesAt ptr n).card = n := by
  simp [pagesAt]

theorem Took.changed {t : State} {taken : Finset Nat} (ht : Took s s' taken) (h : Inv bad s)
    (hcounts : Counts s → Counts t) (hframe : Frame s' t) (hinit : t.initMap = s'.initMap)
    (hl1 : t.l1Map = s'.l1Map) (hl2 : t.l2Map = s'.l2Map) (hl3 : t.l3Map = s'.l3Map)
    (hcache : t.pmmCache = s.pmmCache) : Changed bad s t (avail s \ taken) where
  inv := by
    constructor
    . exact ht.levels.of_maps_eq hframe hinit hl1 hl2 hl3
    . apply h.caches.of_le (ht.frame.trans hframe) hcache
      intro p hp
      rw [hl1, ht.l1_eq, hp]
      rfl
  frame := ht.frame.trans hframe
  counts := fun _ => hcounts
  mem_iff := by
    intro p hbad
    rw [Set.mem_sdiff, mem_avail, mem_avail, hcache, hl1, ht.l1_eq, hframe.bitmapPages,
      ht.frame.bitmapPages]
    simp only [Bool.or_eq_false_iff, decide_eq_false_iff_not, Finset.mem_coe]
    -- A cached page is marked as used, so it is none of those taken.
    have hcached : (∃ (cpu : Nat), p * 4096 ∈ s.pmmCache cpu) → p ∉ taken := by
      intro ⟨cpu, hcpu⟩ hp
      have hpage : p * 4096 / 4096 = p := by omega
      have h1 := (ht.clear p hp).right
      have h2 := h.caches.used cpu _ (by rw [hpage]; exact hbad) hcpu
      rw [hpage, h1] at h2
      contradiction
    tauto

theorem Took.inside {taken : Finset Nat} (ht : Took s s' taken) {p : Nat}
    (hp : p ∈ taken) : p ∈ avail s :=
  Or.inl (ht.clear p hp)

theorem Allocated.granted (ha : Allocated s s' si n ptr)
    (h : Inv bad s) : Granted bad s (shardFreeSub s' si n) n ptr where
  changed := by
    apply ha.took.changed h _ (shardFreeSub_frame s' si n) rfl rfl rfl rfl ha.pmmCache_eq
    intro hc
    have hcounts := ha.took.counts hc si ha.inside
    rw [card_pagesAt] at hcounts
    exact hcounts
  inside := fun _ _ hp => ha.took.inside hp
  pos := ha.pos
  aligned := fun _ => ha.aligned

namespace allocGlobalSlowpath

theorem shardRange_eq (start stop si : Nat) (hstop : stop ≤ s.bitmapPages)
    : Finset.Ico (shardRange start stop si).1 (shardRange start stop si).2
        =
      Finset.Ico start stop ∩ shardPages s si := by
  ext p
  simp only [shardRange, shardPages, Finset.mem_inter, Finset.mem_Ico, Nat.lt_min]
  split <;> split <;> omega

theorem card_inter (start stop si : Nat) (hstop : stop ≤ s.bitmapPages)
    : (Finset.Ico start stop ∩ shardPages s si).card
        =
      (shardRange start stop si).2 - (shardRange start stop si).1 := by
  rw [← shardRange_eq start stop si hstop, Nat.card_Ico]

theorem sub_counts (hs : Geometry s) (start stop : Nat) (hlt : start < stop)
    (hstop : stop ≤ s.bitmapPages)
    (h : Owing s (fun si => (Finset.Ico start stop ∩ shardPages s si).card) (stop - start))
    : Counts (Loop.forRange (sub start stop) (start / 524288)
        ((stop - 1) / 524288 + 1 - start / 524288) s) := by
  have hpages := hs.pages_le
  -- After the shards below `si` the part of the range from shard `si` on is owed.
  have hloop := Loop.forRange_induct (sub start stop)
    (fun si s' => Frame s s' ∧ Owing s'
      (fun idx => if idx < si then 0 else (Finset.Ico start stop ∩ shardPages s idx).card)
      (stop - max start (si * 524288)))
    (start / 524288) ((stop - 1) / 524288 + 1 - start / 524288) s ?init ?step
  case init =>
    refine ⟨Frame.refl s, ?_⟩
    apply h.congr
    . intro idx hidx
      split
      . next hidx =>
        rw [card_inter start stop idx hstop, shardRange]
        dsimp only
        split <;> split <;> omega
      . rfl
    . omega
  case step =>
    intro si t h1 h2 ht
    obtain ⟨hframe, howing⟩ := ht
    have hcard := card_inter start stop si hstop
    have hrange : (shardRange start stop si).2 - (shardRange start stop si).1
        = min stop ((si + 1) * 524288) - max start (si * 524288) := by
      rw [shardRange]
      dsimp only
      split <;> split <;> omega
    have hsub := howing.sub (hframe.geometry hs) si
      (n := (shardRange start stop si).2 - (shardRange start stop si).1)
      (by simp [hcard]) (by omega)
      (by simp only [Nat.lt_irrefl, ↓reduceIte, hcard]; omega) (by omega)
    refine ⟨hframe.trans (shardFreeSub_frame t si _), ?_⟩
    apply hsub.congr
    . intro idx hidx
      by_cases heq : idx = si
      . subst heq
        simp [hcard]
      . simp only [heq, ↓reduceIte]
        have : idx < si ↔ idx < si + 1 := by omega
        simp only [this]
    . omega
  obtain ⟨hframe, howing⟩ := hloop
  apply howing.congr
  . intro idx hidx
    split
    . rfl
    . next hge =>
      rw [card_inter start stop idx hstop, shardRange]
      dsimp only
      split <;> split <;> omega
  . omega

theorem sub_frame (s : State) (start stop i n : Nat)
    : Frame s (Loop.forRange (sub start stop) i n s) := by
  have := Loop.forRange_induct (sub start stop) (fun _ s' => Frame s s') i n s (Frame.refl s) ?_
  . exact this
  . intro si t _ _ ht
    exact ht.trans (shardFreeSub_frame t si _)

theorem sub_maps (s : State) (start stop i n : Nat)
    : (Loop.forRange (sub start stop) i n s).initMap = s.initMap
        ∧ (Loop.forRange (sub start stop) i n s).l1Map = s.l1Map
        ∧ (Loop.forRange (sub start stop) i n s).l2Map = s.l2Map
        ∧ (Loop.forRange (sub start stop) i n s).l3Map = s.l3Map
        ∧ (Loop.forRange (sub start stop) i n s).pmmCache = s.pmmCache := by
  have := Loop.forRange_induct (sub start stop)
    (fun _ s' => s'.initMap = s.initMap ∧ s'.l1Map = s.l1Map ∧ s'.l2Map = s.l2Map
      ∧ s'.l3Map = s.l3Map ∧ s'.pmmCache = s.pmmCache) i n s (by simp) ?_
  . exact this
  . intro si t _ _ ht
    exact ht

end allocGlobalSlowpath

theorem allocGlobalSlowpath_ok (h : Inv bad s) (n : Nat) (hn : 0 < n)
    : RequestOk bad s n (allocGlobalSlowpath s n) := by
  unfold allocGlobalSlowpath
  dsimp only
  generalize hhint : (if s.slowHint > s.bitmapPages then s.bitmapPages else s.slowHint) = hint
  have hscan := scanAround_ok h.levels 0 hint s.bitmapPages n (by split at hhint <;> omega)
    (by omega) (by omega)
  generalize scanAround s 0 hint s.bitmapPages n = res at hscan
  match res with
  | (none, s') =>
    obtain ⟨hs', _⟩ := hscan
    simp only at hs'
    subst hs'
    exact Changed.refl h
  | (some bit, s') =>
    obtain ⟨hs', hfound⟩ := hscan
    simp only at hs'
    subst hs'
    obtain ⟨_, hle, hfree⟩ := hfound bit rfl
    have hcache := (markAllocated_marked h.levels bit n hn hle).pmmCache_eq
    have htook := markAllocated_took h.levels bit n hn hle hfree
    have htook : Took s' { markAllocated s' bit n with slowHint := bit + n }
        (Finset.Ico bit (bit + n)) :=
      htook.of_eq (by constructor <;> simp) rfl rfl rfl rfl (fun _ => rfl) rfl
    have hmaps := allocGlobalSlowpath.sub_maps { markAllocated s' bit n with slowHint := bit + n }
      bit (bit + n) (bit / 524288) ((bit + n - 1) / 524288 + 1 - bit / 524288)
    constructor
    . rw [pagesAt_mul]
      apply htook.changed h _ (allocGlobalSlowpath.sub_frame _ _ _ _ _) hmaps.left
        hmaps.right.left hmaps.right.right.left hmaps.right.right.right.left
        (hmaps.right.right.right.right.trans hcache)
      intro hc
      have howing := htook.owing hc
      rw [Nat.card_Ico] at howing
      exact allocGlobalSlowpath.sub_counts htook.levels.toGeometry bit (bit + n) (by omega)
        (by rw [htook.frame.bitmapPages]; exact hle)
        (howing.congr (by intro si _; rw [htook.frame.shardPages_eq]) rfl)
    . rw [pagesAt_mul]
      exact fun _ _ hp => htook.inside hp
    . exact hn
    . intro _
      omega

theorem searchShards_ok (h : Inv bad s) (n : Nat)
    (body : Nat → Nat → State → Option Nat × State)
    (hbody : ∀ (first t : Nat) (s' : State), Inv bad s' → shardAt s' first t < s'.shardCount →
      RequestOk bad s' n (body first t s'))
    : RequestOk bad s n
        (Loop.search (body (shardRrFirst s).1) 0 (shardRrFirst s).2.shardCount
          (shardRrFirst s).2) := by
  have hrr := shardRrFirst_changed h
  have hfirst : (shardRrFirst s).1 < s.shardCount := Nat.mod_lt _ h.levels.shardCount_pos
  apply Loop.search_induct (body (shardRrFirst s).1)
  . exact hrr
  . intro t s' _ ht hs'
    have hsi := shardAt_lt hs'.inv.levels.toGeometry (shardRrFirst s).1 t
      (by rw [hs'.frame.shardCount]; exact hfirst)
      (by rw [hs'.frame.shardCount, ← hrr.frame.shardCount]; omega)
    exact RequestOk.of_changed hs' (hbody _ t s' hs'.inv hsi)

theorem requestShared_ok (h : Inv bad s) (n : Nat) (hn : 0 < n)
    : RequestOk bad s n (requestShared s n) := by
  unfold requestShared
  split
  . have hsearch := searchShards_ok h n (requestShared.requestFrom n) ?body
    case body =>
      intro first t s' hs' hsi
      unfold requestShared.requestFrom
      dsimp only
      split
      . exact Changed.refl hs'
      . have halloc := allocInShardLocked_ok hs'.levels (shardAt s' first t) n hsi
        generalize allocInShardLocked s' (shardAt s' first t) n = res at halloc
        rcases res with ⟨_ | ptr, s''⟩
        . simp only [Loop.Outcome] at halloc
          rw [halloc]
          exact Changed.refl hs'
        . exact Allocated.granted halloc hs'
    generalize shardRrFirst s = start at hsearch
    obtain ⟨first, s1⟩ := start
    dsimp only at hsearch ⊢
    generalize Loop.search (requestShared.requestFrom n first) 0 s1.shardCount s1 = res at hsearch
    rcases res with ⟨_ | ptr, s2⟩
    . have hsearch : Changed bad s s2 (avail s) := hsearch
      exact RequestOk.of_changed hsearch (allocGlobalSlowpath_ok hsearch.inv n hn)
    . exact hsearch
  . exact allocGlobalSlowpath_ok h n hn

theorem pagesAt_one (ptr : Nat) : pagesAt ptr 1 = {ptr / 4096} := by
  ext p
  simp only [pagesAt, Finset.mem_Ico, Finset.mem_singleton]
  omega

theorem Filled.nodup (h : Filled s s' cpu si fresh)
    : fresh.Nodup := by
  apply List.Nodup.of_map (· / 4096)
  rw [← Multiset.coe_nodup, ← Multiset.toFinset_card_eq_card_iff_nodup]
  exact h.card.trans (by simp)

theorem Filled.mem_iff
    (h : Filled s s' cpu si fresh) (p : Nat) : p ∈ cachePages fresh ↔ p * 4096 ∈ fresh := by
  simp only [cachePages, List.mem_toFinset, List.mem_map]
  constructor
  . rintro ⟨ptr, hptr, heq⟩
    have := h.aligned ptr hptr
    rw [show p * 4096 = ptr by omega]
    exact hptr
  . intro hp
    exact ⟨p * 4096, hp, by omega⟩

theorem page_mem_cachePages (hptr : ptr ∈ fresh)
    : ptr / 4096 ∈ cachePages fresh := by
  simp only [cachePages, List.mem_toFinset, List.mem_map]
  exact ⟨ptr, hptr, rfl⟩

theorem Caches.not_mem (h : Caches bad s) (hbad : ptr / 4096 ∉ bad)
    (hclear : bitTest s.l1Map (ptr / 4096) = false) (cpu : Nat) : ptr ∉ s.pmmCache cpu := by
  intro hptr
  have := h.used cpu ptr hbad hptr
  rw [hclear] at this
  contradiction

theorem Filled.granted
    (hf : Filled s1 s2 cpu si fresh) (ha : Allocated s s1 si 1 ptr) (h : Inv bad s)
    : Granted bad s (shardFreeSub s2 si (1 + fresh.length)) 1 ptr := by
  have htook := ha.took.trans hf.took
  have hcard : (pagesAt ptr 1 ∪ cachePages fresh).card = 1 + fresh.length := by
    rw [Finset.card_union_of_disjoint (ha.took.disjoint hf.took), card_pagesAt, hf.card]
  have hinside : pagesAt ptr 1 ∪ cachePages fresh ⊆ shardPages s si := by
    apply Finset.union_subset ha.inside
    rw [← ha.took.frame.shardPages_eq]
    exact hf.inside
  have hframe := shardFreeSub_frame s2 si (1 + fresh.length)
  have hcache : s2.pmmCache
      = fun idx => if idx = cpu then fresh ++ s.pmmCache cpu else s.pmmCache idx := by
    rw [hf.pmmCache_eq, ha.pmmCache_eq]
  have hclear : ∀ (p : Nat), p ∈ cachePages fresh → p < s.bitmapPages ∧ bitTest s.l1Map p = false :=
    fun p hp => htook.clear p (Finset.mem_union_right _ hp)
  have hcaches : Caches bad (shardFreeSub s2 si (1 + fresh.length)) := by
    apply h.caches.append (htook.frame.trans hframe) cpu fresh hcache
    . intro p hp
      show bitTest s2.l1Map p = true
      simp [htook.l1_eq, hp]
    . intro ptr' hptr'
      rw [hframe.bitmapPages, htook.frame.bitmapPages]
      exact (hclear _ (page_mem_cachePages hptr')).left
    . exact hf.nodup
    . intro ptr' idx hbad hptr'
      exact h.caches.not_mem hbad (hclear _ (page_mem_cachePages hptr')).right idx
    . exact fun ptr' _ hptr' => hf.aligned ptr' hptr'
    . intro ptr' _ hptr'
      have hin := page_mem_cachePages hptr'
      show bitTest s2.l1Map (ptr' / 4096) = true
      simp [htook.l1_eq, hin]
  constructor
  . constructor
    . exact ⟨htook.levels.of_maps_eq hframe rfl rfl rfl rfl, hcaches⟩
    . exact htook.frame.trans hframe
    . intro p hbad
      have hpage : p * 4096 / 4096 = p := by omega
      have hcached : (∃ (idx : Nat), p * 4096 ∈ s2.pmmCache idx)
          ↔ p ∈ cachePages fresh ∨ ∃ (idx : Nat), p * 4096 ∈ s.pmmCache idx := by
        rw [hcache, hf.mem_iff]
        simp only [mem_appended]
        constructor
        . rintro ⟨idx, ⟨_, hp⟩ | hp⟩
          . exact Or.inl hp
          . exact Or.inr ⟨idx, hp⟩
        . rintro (hp | ⟨idx, hp⟩)
          . exact ⟨cpu, Or.inl ⟨rfl, hp⟩⟩
          . exact ⟨idx, Or.inr hp⟩
      have hold : (∃ (idx : Nat), p * 4096 ∈ s.pmmCache idx) → p ∉ pagesAt ptr 1 := by
        intro ⟨idx, hidx⟩ hp
        apply h.caches.not_mem (by rw [hpage]; exact hbad) _ idx hidx
        rw [hpage]
        exact (ha.took.clear p hp).right
      have hnew : p ∈ cachePages fresh → p ∉ pagesAt ptr 1 := by
        intro hp hp'
        exact Finset.disjoint_left.mp (ha.took.disjoint hf.took) hp' hp
      have hclear := hclear p
      show (p < s2.bitmapPages ∧ bitTest s2.l1Map p = false)
        ∨ (∃ (idx : Nat), p * 4096 ∈ s2.pmmCache idx) ↔ _
      rw [Set.mem_sdiff, mem_avail, hcached, htook.l1_eq, htook.frame.bitmapPages]
      simp only [Bool.or_eq_false_iff, decide_eq_false_iff_not, Finset.mem_coe, Finset.mem_union,
        not_or]
      constructor
      . rintro (⟨hlt, hfree, hp, _⟩ | hp | hp)
        . exact ⟨Or.inl ⟨hlt, hfree⟩, hp⟩
        . exact ⟨Or.inl (hclear hp), hnew hp⟩
        . exact ⟨Or.inr hp, hold hp⟩
      . rintro ⟨⟨hlt, hfree⟩ | hp, hnot⟩
        . by_cases hp : p ∈ cachePages fresh
          . exact Or.inr (Or.inl hp)
          . exact Or.inl ⟨hlt, hfree, hnot, hp⟩
        . exact Or.inr (Or.inr hp)
    . intro _ hc
      have hcounts := htook.counts hc si hinside
      rw [hcard] at hcounts
      exact hcounts
  . exact fun _ _ hp => ha.took.inside hp
  . exact ha.pos
  . exact fun _ => ha.aligned

theorem pcpRefill_ok (h : Inv bad s) (cpu : Nat)
    : RequestOk bad s 1 (pcpRefill s cpu) := by
  apply searchShards_ok h 1 (pcpRefill.refillFrom cpu)
  intro first t s' hs' hsi
  unfold pcpRefill.refillFrom
  dsimp only
  split
  . exact Changed.refl hs'
  . have halloc := allocInShardLocked_ok hs'.levels (shardAt s' first t) 1 hsi
    generalize allocInShardLocked s' (shardAt s' first t) 1 = res at halloc
    match res with
    | (none, s1) =>
      simp only [Loop.Outcome] at halloc
      rw [halloc]
      exact Changed.refl hs'
    | (some ptr, s1) =>
      have halloc : Allocated s' s1 (shardAt s' first t) 1 ptr := halloc
      obtain ⟨fresh, hfilled, hlen, _⟩ := pcpFill_ok halloc.took.levels cpu (shardAt s' first t) 64
        (by rw [halloc.took.frame.shardCount]; exact hsi)
      dsimp only
      rw [hlen]
      exact hfilled.granted halloc hs'

theorem setCache_frame (s : State) (cpu : Nat) (pages : List Nat)
    : Frame s (s.setCache cpu pages) := by
  constructor <;> simp [State.setCache]

theorem Inv.pop (h : Inv bad s) (cpu ptr : Nat) (rest : List Nat)
    (hcache : s.pmmCache cpu = ptr :: rest) : Granted bad s (s.setCache cpu rest) 1 ptr := by
  have hmem_ptr : ptr ∈ s.pmmCache cpu := by simp [hcache]
  -- The other occurrences of a page stay, since there are none of the one taken.
  have hmem : ∀ (idx ptr' : Nat), ptr' / 4096 ∉ bad →
      (ptr' ∈ (s.setCache cpu rest).pmmCache idx ↔ ptr' ∈ s.pmmCache idx ∧ ptr' ≠ ptr) := by
    intro idx ptr' hbad
    simp only [State.setCache]
    split
    . next heq =>
      have honce := h.caches.once cpu ptr' hbad
      rw [heq, hcache, List.mem_cons]
      rw [hcache] at honce
      constructor
      . intro hrest
        refine ⟨Or.inr hrest, ?_⟩
        intro heq'
        rw [heq', List.count_cons_self] at honce
        have := List.count_pos_iff.mpr (heq' ▸ hrest)
        omega
      . rintro ⟨hptr | hrest, hne⟩
        . contradiction
        . exact hrest
    . next hne =>
      constructor
      . intro hptr
        refine ⟨hptr, ?_⟩
        intro heq
        rw [heq] at hptr hbad
        exact hne (h.caches.disjoint idx cpu ptr hbad hptr hmem_ptr)
      . exact fun hptr => hptr.left
  have hcaches : Caches bad (s.setCache cpu rest) := by
    constructor
    . intro idx ptr' hptr'
      simp only [State.setCache] at hptr'
      split at hptr'
      . exact h.caches.lt cpu ptr' (by rw [hcache]; exact List.mem_cons_of_mem _ hptr')
      . exact h.caches.lt idx ptr' hptr'
    . intro idx ptr' hbad
      have honce := h.caches.once idx ptr' hbad
      simp only [State.setCache]
      split
      . next heq =>
        rw [heq, hcache, List.count_cons] at honce
        omega
      . exact honce
    . intro cpu1 cpu2 ptr' hbad h1 h2
      rw [hmem _ _ hbad] at h1 h2
      exact h.caches.disjoint cpu1 cpu2 ptr' hbad h1.left h2.left
    . intro idx ptr' hbad hptr'
      rw [hmem _ _ hbad] at hptr'
      exact h.caches.aligned idx ptr' hbad hptr'.left
    . intro idx ptr' hbad hptr'
      rw [hmem _ _ hbad] at hptr'
      exact h.caches.used idx ptr' hbad hptr'.left
  have hframe := setCache_frame s cpu rest
  constructor
  . constructor
    . exact ⟨h.levels.of_maps_eq hframe rfl rfl rfl rfl, hcaches⟩
    . exact hframe
    . intro p hbad
      have hpage : p * 4096 / 4096 = p := by omega
      rw [pagesAt_one, Finset.coe_singleton, Set.mem_sdiff, mem_avail, mem_avail,
        Set.mem_singleton_iff]
      simp only [hmem _ (p * 4096) (by rw [hpage]; exact hbad)]
      show (p < s.bitmapPages ∧ bitTest s.l1Map p = false) ∨ _ ↔ _
      constructor
      . rintro (⟨hlt, hfree⟩ | ⟨idx, hp, hne⟩)
        . refine ⟨Or.inl ⟨hlt, hfree⟩, ?_⟩
          intro heq
          have := h.caches.used cpu ptr (by rw [← heq]; exact hbad) hmem_ptr
          rw [← heq, hfree] at this
          contradiction
        . refine ⟨Or.inr ⟨idx, hp⟩, ?_⟩
          intro heq
          have := h.caches.aligned cpu ptr (by rw [← heq]; exact hbad) hmem_ptr
          omega
      . rintro ⟨hfree | ⟨idx, hp⟩, hne⟩
        . exact Or.inl hfree
        . exact Or.inr ⟨idx, hp, by omega⟩
    . exact fun _ hc => hc.of_eq hframe rfl (fun _ => rfl) rfl
  . intro p hbad hp
    rw [pagesAt_one, Finset.mem_singleton] at hp
    rw [hp] at hbad ⊢
    right
    refine ⟨cpu, ?_⟩
    have := h.caches.aligned cpu ptr hbad hmem_ptr
    rw [show ptr / 4096 * 4096 = ptr by omega]
    exact hmem_ptr
  . omega
  . exact fun hbad => h.caches.aligned cpu ptr hbad hmem_ptr

theorem request_ok (h : Inv bad s) (cpu : Option Nat) (n : Nat)
    : RequestOk bad s n (request s cpu n) := by
  unfold request
  split
  . exact Changed.refl h
  . split
    . exact requestShared_ok h n (by omega)
    . next cpu hcpu =>
      have hn : n = 1 := by
        split at hcpu
        . assumption
        . contradiction
      subst hn
      split
      . next ptr rest hcache => exact h.pop cpu ptr rest hcache
      . have hrefill := pcpRefill_ok h cpu
        generalize pcpRefill s cpu = res at hrefill
        match res with
        | (some ptr, s1) => exact hrefill
        | (none, s1) =>
          have hrefill : Changed bad s s1 (avail s) := hrefill
          exact RequestOk.of_changed hrefill (requestShared_ok hrefill.inv 1 (by omega))

theorem Allocated.setHint (h : Allocated s s' si n ptr)
    (idx hint : Nat) : Allocated s (s'.setHint idx hint) si n ptr where
  __ := h
  took := h.took.setHint idx hint

theorem request2MB_ok (h : Inv bad s) : RequestOk bad s 512 (request2MB s) := by
  apply searchShards_ok h 512 request2MB.request2MBFrom
  intro first t s' hs' hsi
  unfold request2MB.request2MBFrom
  generalize shardAt s' first t = si at hsi
  dsimp only
  split
  . exact Changed.refl hs'
  . have hsearch := Loop.search_induct (fun w s => request2MBWord s w 64 (~~~(s.l2Map w)))
      (· = s')
      (fun l2 s1 => s1 = s' ∧ l2 / 1024 = si ∧ l2 * 512 + 512 ≤ s'.bitmapPages
        ∧ ∀ (p : Nat), p / 512 = l2 → bitTest s'.l1Map p = false)
      (si * 16) 16 s' rfl ?step
    case step =>
      intro w s1 h1 h2 heq
      subst heq
      have hword := request2MBWord_ok hs'.levels w 64 (~~~(s1.l2Map w))
      generalize request2MBWord s1 w 64 (~~~(s1.l2Map w)) = res at hword
      match res with
      | (none, s2) => exact hword
      | (some l2, s2) =>
        obtain ⟨heq, hw, hrest⟩ := hword
        exact ⟨heq, by omega, hrest⟩
    generalize Loop.search (fun w s => request2MBWord s w 64 (~~~(s.l2Map w))) (si * 16) 16 s' = res
      at hsearch
    match res with
    | (none, s1) =>
      simp only [Loop.Outcome] at hsearch
      rw [hsearch]
      exact Changed.refl hs'
    | (some l2, s1) =>
      obtain ⟨heq, hsi', hlt, hclear⟩ := hsearch
      subst heq
      have htook := takeBlock_took hs'.levels l2 hlt hclear
      have halloc : Allocated s1
          (l2FullPropagate
            { s1 with
              l1Map := bitsSet s1.l1Map (l2 * 512) (l2 * 512 + 512)
              l2Map := bitSet s1.l2Map l2
            }
            l2)
          si 512 (l2 * 512 * 4096) := by
        constructor
        . rw [pagesAt_mul]
          exact htook
        . rw [pagesAt_mul]
          intro p hp
          rw [Finset.mem_Ico] at hp
          rw [mem_shardPages]
          omega
        . omega
        . omega
        . exact l2FullPropagate_pmmCache _ _
      dsimp only
      split
      . exact (halloc.setHint _ _).granted hs'
      . exact halloc.granted hs'

theorem request2GB_ok (h : Inv bad s)
    : RequestOk bad s 524288 (request2GB s) := by
  apply searchShards_ok h 524288 request2GB.request2GBFrom
  intro first t s' hs' hsi
  unfold request2GB.request2GBFrom
  generalize shardAt s' first t = si at hsi
  dsimp only
  split
  . exact Changed.refl hs'
  . next hnp =>
    split
    . exact Changed.refl hs'
    . split
      . exact Changed.refl hs'
      . have hlt : si * 524288 + 524288 ≤ s'.bitmapPages := by
          have := hs'.levels.npages_eq si
          omega
        have htotal : si * 1024 + 1024 ≤ s'.totalL2Bits := by
          have := hs'.levels.totalL2Bits_eq
          by_contra hgt
          omega
        have hblocks := blocksClear_ok hs'.levels (si * 1024) 1024 htotal
        generalize blocksClear s' (si * 1024) 1024 = res at hblocks
        match res with
        | (false, s1) =>
          obtain ⟨heq, _⟩ := hblocks
          simp only at heq
          rw [heq]
          exact Changed.refl hs'
        | (true, s1) =>
          obtain ⟨heq, hclear⟩ := hblocks
          simp only at heq
          subst heq
          have hclear : ∀ (p : Nat), si * 524288 ≤ p → p < si * 524288 + 524288 →
              bitTest s1.l1Map p = false := by
            intro p h1 h2
            apply hclear rfl p
            . by_contra hlt
              omega
            . by_contra hge
              omega
          have htook := takeShard_took hs'.levels si hlt hclear
          have halloc : Allocated s1
              { s1 with
                l1Map := bitsSet s1.l1Map (si * 524288) (si * 524288 + 524288)
                l2Map := bitsSet s1.l2Map (si * 1024) (si * 1024 + 1024)
                l3Map := bitSet s1.l3Map si
              }
              si 524288 (si * 524288 * 4096) := by
            constructor
            . rw [pagesAt_mul]
              exact htook
            . rw [pagesAt_mul]
              intro p hp
              rw [Finset.mem_Ico] at hp
              rw [mem_shardPages]
              omega
            . omega
            . omega
            . rfl
          dsimp only
          split
          . exact (halloc.setHint _ _).granted hs'
          . exact halloc.granted hs'

end

end PMM
