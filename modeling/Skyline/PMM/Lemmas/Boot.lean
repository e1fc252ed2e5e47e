import Skyline.PMM.Lemmas.Init

/-!
This module contains the last part of the correctness of the initialisation.
-/

namespace PMM

theorem clearBits_block {s : State} (h : Levels s) (l2 : Nat) (hl2 : l2 < s.totalL2Bits)
    : clearBits s.l1Map (l2 * 8) 8
        =
      clearIn s.l1Map {p ∈ allPages s | p / 512 = l2} := by
  rw [clearBits_eq, clearIn, clearIn]
  congr 1
  ext p
  simp only [Finset.mem_filter, Finset.mem_Ico, mem_allPages]
  constructor
  . rintro ⟨hp, hclear⟩
    refine ⟨⟨?_, by omega⟩, hclear⟩
    by_contra hge
    have := h.l1_tail p (by omega) (by omega)
    rw [hclear] at this
    contradiction
  . rintro ⟨⟨hlt, hp⟩, hclear⟩
    exact ⟨by omega, hclear⟩

theorem clearIn_filter_succ (map : Bitmap) (pages : Finset Nat) (i : Nat)
    : clearIn map {p ∈ pages | p / 512 < i + 1}
        =
      clearIn map {p ∈ pages | p / 512 < i} + clearIn map {p ∈ pages | p / 512 = i} := by
  rw [← clearIn_union]
  . congr 1
    ext p
    simp only [Finset.mem_union, Finset.mem_filter]
    have : p / 512 < i + 1 ↔ p / 512 < i ∨ p / 512 = i := by omega
    rw [this]
    exact and_or_left
  . rw [Finset.disjoint_left]
    intro p h1 h2
    simp only [Finset.mem_filter] at h1 h2
    omega

theorem countBlock_counts {s : State} (h : Levels s)
    (hshard : ∀ (si : Nat), (s.shards si).freePages = 0) (hfree : s.freePages = 0)
    : let s' := Loop.forRange countBlock 0 s.totalL2Bits s
      Counts s' ∧ Frame s s' ∧ s'.initMap = s.initMap ∧ s'.l1Map = s.l1Map ∧ s'.l2Map = s.l2Map
        ∧ s'.l3Map = s.l3Map ∧ s'.pmmCache = s.pmmCache := by
  have hloop := Loop.forRange_induct (countBlock)
    (fun i s' => (∀ (si : Nat), (s'.shards si).freePages
          = clearIn s.l1Map {p ∈ shardPages s si | p / 512 < i})
      ∧ s'.freePages = clearIn s.l1Map {p ∈ allPages s | p / 512 < i}
      ∧ Frame s s' ∧ s'.initMap = s.initMap ∧ s'.l1Map = s.l1Map ∧ s'.l2Map = s.l2Map
      ∧ s'.l3Map = s.l3Map ∧ s'.pmmCache = s.pmmCache)
    0 s.totalL2Bits s ?init ?step
  case init =>
    refine ⟨?_, ?_, Frame.refl s, rfl, rfl, rfl, rfl, rfl⟩
    . intro si
      simp [hshard, clearIn]
    . simp [hfree, clearIn]
  case step =>
    intro i t _ hi ht
    obtain ⟨hcount, hglobal, hframe, hinit, hl1, hl2, hl3, hcache⟩ := ht
    have hin : ∀ (si : Nat), si = i / 1024 →
        ({p ∈ shardPages s si | p / 512 = i} : Finset Nat) = {p ∈ allPages s | p / 512 = i} := by
      intro si hsi
      ext p
      simp only [Finset.mem_filter, mem_shardPages, mem_allPages]
      omega
    have hout : ∀ (si : Nat), si ≠ i / 1024 →
        ({p ∈ shardPages s si | p / 512 = i} : Finset Nat) = ∅ := by
      intro si hsi
      ext p
      simp only [Finset.mem_filter, mem_shardPages, Finset.notMem_empty, iff_false]
      omega
    unfold countBlock
    split
    . next hset =>
      -- A full block has no clear bits.
      rw [hl2, h.l2_iff i (by omega)] at hset
      have hzero : ∀ (pages : Finset Nat), clearIn s.l1Map {p ∈ pages | p / 512 = i} = 0 := by
        intro pages
        rw [clearIn, Finset.card_eq_zero, Finset.filter_eq_empty_iff]
        intro p hp
        simp only [Finset.mem_filter] at hp
        simp [hset p hp.right]
      refine ⟨?_, ?_, hframe, hinit, hl1, hl2, hl3, hcache⟩
      . intro si
        rw [clearIn_filter_succ, hzero, hcount, Nat.add_zero]
      . rw [clearIn_filter_succ, hzero, hglobal, Nat.add_zero]
    . have hbits : clearBits t.l1Map (i * 8) 8 = clearIn s.l1Map
          {p ∈ allPages s | p / 512 = i} := by
        rw [hl1]
        exact clearBits_block h i (by omega)
      dsimp only
      refine ⟨?_, ?_, ?_, hinit, hl1, hl2, hl3, hcache⟩
      . intro si
        rw [clearIn_filter_succ]
        simp only [State.setShard]
        split
        . next heq => rw [hbits, hin si heq, ← hcount si, heq]
        . next hne =>
          rw [hout si hne, hcount si]
          simp [clearIn]
      . show t.freePages + _ = _
        rw [clearIn_filter_succ, hbits, hglobal]
      . have := setShard_frame t (i / 1024)
          { t.shards (i / 1024) with
            freePages := (t.shards (i / 1024)).freePages + clearBits t.l1Map (i * 8) 8 } rfl rfl
        exact hframe.trans ⟨rfl, rfl, rfl, rfl, rfl, rfl, rfl, this.firstPage, this.npages⟩
  rw [Nat.zero_add] at hloop
  obtain ⟨hcount, hglobal, hframe, hinit, hl1, hl2, hl3, hcache⟩ := hloop
  have hall : ∀ (pages : Finset Nat), pages ⊆ allPages s →
      ({p ∈ pages | p / 512 < s.totalL2Bits} : Finset Nat) = pages := by
    intro pages hpages
    rw [Finset.filter_eq_self]
    intro p hp
    exact h.block_lt ((mem_allPages s p).mp (hpages hp))
  refine ⟨?_, hframe, hinit, hl1, hl2, hl3, hcache⟩
  constructor
  . intro si _
    rw [hcount, hl1, hframe.shardPages_eq, hall, Nat.add_zero]
    intro p hp
    rw [mem_shardPages] at hp
    rw [mem_allPages]
    exact hp.left
  . rw [hglobal, hl1, hframe.allPages_eq, hall _ (Finset.Subset.refl _), Nat.add_zero]

structure Placed (size : Nat) (entries entries' : List MemmapEntry) (base : Nat) : Prop where
  sub : ∀ (e' : MemmapEntry), e' ∈ entries' →
    ∃ (e : MemmapEntry), e ∈ entries ∧ e.type = e'.type ∧ e.base = e'.base ∧ e'.length ≤ e.length
  kept : ∀ (e : MemmapEntry), e ∈ entries → e.type ≠ .usable → e ∈ entries'
  inside : ∃ (e : MemmapEntry), e ∈ entries ∧ e.type = .usable ∧ e.base ≤ base
    ∧ base + size ≤ e.base + e.length
  disjoint : ∀ (e' : MemmapEntry), e' ∈ entries' → e'.type = .usable →
    e'.base + e'.length ≤ base ∨ base + size ≤ e'.base ∨ e'.length = 0 ∨ size = 0

theorem place_placed (size : Nat) (entries entries' : List MemmapEntry) (base : Nat)
    (hplace : place size entries = some (entries', base))
    (hdisj : entries.Pairwise fun e1 e2 => e1.type = .usable → e2.type = .usable → e1.Disjoint e2)
    : Placed size entries entries' base := by
  induction entries generalizing entries' with
  | nil => simp [place] at hplace
  | cons e _ ih =>
    rw [List.pairwise_cons] at hdisj
    unfold place at hplace
    split at hplace
    . next hskip =>
      split at hplace
      . contradiction
      . next rest' base' hrest =>
        simp only [Option.some.injEq, Prod.mk.injEq] at hplace
        obtain ⟨rfl, rfl⟩ := hplace
        have hih := ih rest' hrest hdisj.right
        obtain ⟨e0, he0, htype0, h1, h2⟩ := hih.inside
        constructor
        . intro e' he'
          rw [List.mem_cons] at he'
          cases he' with
          | inl heq => exact ⟨e, by simp, by rw [heq], by rw [heq], by rw [heq]⟩
          | inr hmem =>
            obtain ⟨e1, he1, hrel⟩ := hih.sub e' hmem
            exact ⟨e1, List.mem_cons_of_mem _ he1, hrel⟩
        . intro e1 he1 htype
          rw [List.mem_cons] at he1 ⊢
          exact he1.imp id fun hmem => hih.kept e1 hmem htype
        . exact ⟨e0, List.mem_cons_of_mem _ he0, htype0, h1, h2⟩
        . intro e' he' htype
          rw [List.mem_cons] at he'
          cases he' with
          | inl heq =>
            subst heq
            have := hdisj.left e0 he0 htype htype0
            unfold MemmapEntry.Disjoint at this
            omega
          | inr hmem => exact hih.disjoint e' hmem htype
    . next htake =>
      simp only [ne_eq, not_or, not_not, Nat.not_lt] at htake
      simp only [Option.some.injEq, Prod.mk.injEq] at hplace
      obtain ⟨rfl, rfl⟩ := hplace
      have hlen : (e.shrink (e.length - size) (by omega)).length = e.length - size := rfl
      have hbase : (e.shrink (e.length - size) (by omega)).base = e.base := rfl
      constructor
      . intro e' he'
        rw [List.mem_cons] at he'
        cases he' with
        | inl heq =>
          refine ⟨e, by simp, by rw [heq]; rfl, by rw [heq]; rfl, ?_⟩
          rw [heq, hlen]
          omega
        | inr hmem => exact ⟨e', List.mem_cons_of_mem _ hmem, rfl, rfl, Nat.le_refl _⟩
      . intro e1 he1 htype
        rw [List.mem_cons] at he1 ⊢
        cases he1 with
        | inl heq =>
          rw [heq, htake.left] at htype
          contradiction
        | inr hmem => exact Or.inr hmem
      . refine ⟨e, by simp, htake.left, by omega, ?_⟩
        rw [hbase, hlen]
        omega
      . intro e' he' htype
        rw [List.mem_cons] at he'
        cases he' with
        | inl heq =>
          rw [heq]
          exact Or.inl (Nat.le_refl _)
        | inr hmem =>
          have := hdisj.left e' hmem htake.left htype
          unfold MemmapEntry.Disjoint at this
          rw [hbase, hlen]
          omega

theorem maxEnd_foldl (p : MemmapEntry → Bool) (entries : List MemmapEntry) (acc : Nat)
    (hacc : acc ≤ 2 ^ 52)
    : let top := entries.foldl
        (fun acc e => if p e ∧ e.base + e.length > acc then e.base + e.length else acc) acc
      acc ≤ top ∧ top ≤ 2 ^ 52
        ∧ ∀ (e : MemmapEntry), e ∈ entries → p e = true → e.base + e.length ≤ top := by
  induction entries generalizing acc with
  | nil => exact ⟨Nat.le_refl _, hacc, by simp⟩
  | cons e _ ih =>
    have hfits := e.fits
    have hstep : acc ≤ (if p e ∧ e.base + e.length > acc then e.base + e.length else acc)
        ∧ (if p e ∧ e.base + e.length > acc then e.base + e.length else acc) ≤ 2 ^ 52
        ∧ (p e = true →
          e.base + e.length ≤ (if p e ∧ e.base + e.length > acc then e.base + e.length
            else acc)) := by
      split
      . omega
      . next hnot =>
        refine ⟨Nat.le_refl _, hacc, ?_⟩
        intro hp
        simp only [hp, true_and] at hnot
        omega
    obtain ⟨h1, h2, h3⟩ := ih _ hstep.right.left
    refine ⟨Nat.le_trans hstep.left h1, h2, ?_⟩
    intro e' he' hp
    rw [List.mem_cons] at he'
    cases he' with
    | inl heq =>
      subst heq
      exact Nat.le_trans (hstep.right.right hp) h1
    | inr hmem => exact h3 e' hmem hp

section

variable (entries : List MemmapEntry)
include entries

theorem maxPhys_le : maxPhys entries ≤ 2 ^ 52 := by
  unfold maxPhys
  dsimp only
  split
  . exact (maxEnd_foldl _ entries 0 (by omega)).right.left
  . exact (maxEnd_foldl _ entries 0 (by omega)).right.left

theorem le_maxPhys (e : MemmapEntry) (he : e ∈ entries)
    (htype : e.type = .usable) : e.base + e.length ≤ maxPhys entries := by
  have hle : e.base + e.length ≤ maxEnd (fun e => e.type = .usable) entries :=
    (maxEnd_foldl _ entries 0 (by omega)).right.right e he (by simp [htype])
  unfold maxPhys
  dsimp only
  split
  . omega
  . exact hle

theorem foldl_clearUsableL2_tail (l2Map : Bitmap) (total : Nat)
    (hle : ∀ (e : MemmapEntry), e ∈ entries → e.type = .usable → e.length ≠ 0 →
      (e.base + e.length - 1) / 2097152 < total)
    (htail : ∀ (l2 : Nat), total ≤ l2 → bitTest l2Map l2 = true)
    : ∀ (l2 : Nat), total ≤ l2 → bitTest (entries.foldl clearUsableL2 l2Map) l2 = true := by
  induction entries generalizing l2Map with
  | nil => exact htail
  | cons e _ ih =>
    apply ih
    . intro e' he'
      exact hle e' (List.mem_cons_of_mem _ he')
    . intro l2 hl2
      unfold clearUsableL2
      dsimp only
      split
      . exact htail l2 hl2
      . next huse =>
        simp only [ne_eq, not_or, not_not] at huse
        have hlast := hle e (by simp) huse.left huse.right
        split
        . exact htail l2 hl2
        . rw [bitTest_bitsClear, htail l2 hl2]
          have : ¬(e.base / 2097152 ≤ l2 ∧ l2 < (e.base + e.length - 1) / 2097152 + 1) := by omega
          simp only [this, decide_false, Bool.not_false, Bool.and_true]

theorem freshState_booting (bitmapPages metaBase : Nat)
    (hpos : 0 < bitmapPages) (hle : bitmapPages ≤ 2 ^ 40)
    (htop : ∀ (e : MemmapEntry), e ∈ entries → e.type = .usable →
      e.base + e.length ≤ bitmapPages * 4096)
    : Booting (freshState entries bitmapPages metaBase) (fun _ => False) := by
  constructor
  . constructor
    . exact hpos
    . exact hle
    . rfl
    . rfl
    . rfl
    . intro si
      rfl
    . intro si
      simp only [freshState]
      split <;> omega
  . intro p hp
    simp [freshState, bitTest] at hp
  . simp
  . rintro p ⟨e, he, htype, hcov⟩
    have := htop e he htype
    unfold MemmapEntry.Covers at hcov
    show p < bitmapPages
    omega
  . intro l2 _
    have hlt : l2 % 64 < 64 := by omega
    rw [bitTest]
    show (BitVec.allOnes 64).getLsbD (l2 % 64) = true
    rw [BitVec.getLsbD_allOnes]
    simp [hlt]
  . intro si
    rfl
  . rfl
  . intro cpu
    rfl

end

section

variable {s : State} {reserved : Nat → Prop} (h : Booting s reserved)
include h

theorem clearL3_booting (n : Nat)
    : Booting (Loop.forRange clearL3 0 n s) reserved ∧ Frame s (Loop.forRange clearL3 0 n s) := by
  have := Loop.forRange_induct (clearL3) (fun _ s' => Booting s' reserved ∧ Frame s s') 0 n s
    ⟨h, Frame.refl s⟩ ?_
  . exact this
  . intro l3 t _ _ ht
    unfold clearL3
    split
    . exact ht
    . exact ⟨ht.left.setLevels t.l2Map _ ht.left.l2_tail,
        ht.right.trans (by constructor <;> simp)⟩

theorem recompute_levels
    : let s1 := Loop.forRange recomputeL2 0 s.totalL2Bits s
      let s2 := Loop.forRange recomputeL3 0 s1.totalL3Bits s1
      Levels s2 ∧ Booting s2 reserved ∧ Frame s s2 := by
  obtain ⟨hboot1, hframe1, hl2⟩ := recomputeL2_booting h
  generalize Loop.forRange recomputeL2 0 s.totalL2Bits s = s1 at hboot1 hframe1 hl2
  obtain ⟨hboot2, hframe2, hinit, hl2eq, hl3⟩ := recomputeL3_booting hboot1
  dsimp only
  generalize Loop.forRange recomputeL3 0 s1.totalL3Bits s1 = s2 at hboot2 hframe2 hinit hl2eq hl3
  have hframe := hframe1.trans hframe2
  have hinited : ∀ (l2 : Nat), l2 < s2.totalL2Bits → bitTest s2.initMap l2 = true := by
    intro l2 hlt
    rw [hinit]
    exact (hl2 l2 (by rw [← hframe.totalL2Bits]; exact hlt)).left
  refine ⟨?_, hboot2, hframe⟩
  constructor
  . exact hboot2.toGeometry
  . exact hinited
  . intro p h1 h2
    rw [hboot2.populated p (hinited _ (by omega))]
    left
    intro huse
    have := hboot2.usable_lt p huse
    omega
  . intro l2 hlt
    rw [hl2eq, (hl2 l2 (by rw [← hframe.totalL2Bits]; exact hlt)).right]
    apply forall_congr'
    intro p
    apply imp_congr_right
    intro hp
    rw [hboot2.populated p (hinited _ (by omega)), hframe.memmap]
  . intro l2 hlt _
    exact hboot2.l2_tail l2 hlt
  . intro l3 hlt
    rw [hl2eq]
    exact hl3 l3 (by rw [← hframe2.totalL3Bits]; exact hlt)

end

theorem initMaps_inv {s : State} (h : Booting s (fun _ => False))
    (htop : ∀ (e : MemmapEntry), e ∈ s.memmap → e.type = .usable →
      e.base + e.length ≤ s.bitmapPages * 4096)
    : Inv ∅ (initMaps s) ∧ Counts (initMaps s) ∧ Frame s (initMaps s)
        ∧ ∀ (p : Nat), p ∈ avail (initMaps s) →
            p ≠ 0 ∧ Usable s.memmap p ∧ ∀ (e : MemmapEntry), e ∈ s.memmap → ¬BootPage e p := by
  have hboot0 := h.setLevels (s.memmap.foldl clearUsableL2 s.l2Map) s.l3Map ?tail
  case tail =>
    apply foldl_clearUsableL2_tail _ _ _ _ h.l2_tail
    intro e he htype hlen
    have := htop e he htype
    have := h.totalL2Bits_eq
    omega
  have hframe0 : Frame s { s with l2Map := s.memmap.foldl clearUsableL2 s.l2Map } := by
    constructor <;> simp
  unfold initMaps
  extract_lets s0 s1 s2 s3 s4 s5
  obtain ⟨hboot1, hframe1⟩ : Booting s1 (fun _ => False) ∧ Frame s0 s1 := clearL3_booting hboot0 _
  obtain ⟨hboot2, hframe2⟩ := markAllocated_booting hboot1 0 1 (by omega)
  obtain ⟨reserved, hboot3, hframe3, hzero, hpage⟩ := foldl_reserve_booting s2.memmap hboot2
  obtain ⟨hlevels, hboot5, hframe5⟩ : Levels s5 ∧ Booting s5 reserved ∧ Frame s3 s5 :=
    recompute_levels hboot3
  obtain ⟨hcounts, hframe6, hi, hl1, hl2, hl3, hcache⟩ :=
    countBlock_counts hlevels hboot5.shardFree_eq hboot5.freePages_eq
  generalize Loop.forRange countBlock 0 s5.totalL2Bits s5 = s6
    at hcounts hframe6 hi hl1 hl2 hl3 hcache ⊢
  have hframe02 : Frame s s2 := (hframe0.trans hframe1).trans hframe2
  have hframe05 : Frame s s5 := (hframe02.trans hframe3).trans hframe5
  have hnil : ∀ (cpu : Nat), s6.pmmCache cpu = [] := by
    intro cpu
    rw [hcache]
    exact hboot5.pmmCache_eq cpu
  refine ⟨⟨hlevels.of_maps_eq hframe6 hi hl1 hl2 hl3, ?_⟩, hcounts, hframe05.trans hframe6, ?_⟩
  . constructor <;> simp [hnil]
  . intro p hp
    rw [mem_avail] at hp
    simp only [hnil, List.not_mem_nil, exists_false, or_false] at hp
    obtain ⟨hlt, hclear⟩ := hp
    have hpop := hboot5.populated p (hlevels.inited _ (hlevels.block_lt
      (by rw [← hframe6.bitmapPages]; exact hlt)))
    rw [← hl1, hclear] at hpop
    have hfree : Usable s5.memmap p ∧ ¬reserved p := by
      simpa only [Bool.false_eq_true, false_iff, not_or, not_not] using hpop
    refine ⟨?_, ?_, ?_⟩
    . intro hp0
      exact hfree.right (hzero p (Or.inr (by omega)))
    . rw [← hframe05.memmap]
      exact hfree.left
    . intro e he hboot
      apply hfree.right
      apply hpage e p _ _ hboot
      . rw [hframe02.memmap]
        exact he
      . rw [hframe02.bitmapPages, ← (hframe05.trans hframe6).bitmapPages]
        exact hlt

structure Managed (m : Memmap) (s : State) (p : Nat) : Prop where
  ne_zero : p ≠ 0
  usable : Usable m.entries p
  not_meta : (p + 1) * 4096 ≤ s.metaBase ∨ s.metaBase + s.metaSize ≤ p * 4096
  not_boot : ∀ (e : MemmapEntry), e ∈ m.entries → e.type = .bootloaderReclaimable → ¬e.Touches p

theorem totalMeta_pos (totalL2Bits totalL3Bits : Nat) (h : 0 < totalL2Bits)
    : 0 < totalMeta totalL2Bits totalL3Bits := by
  unfold totalMeta alignUp divRoundUp
  omega

theorem truncate_length_le (e : MemmapEntry) : (truncate e).length ≤ e.length := by
  show e.length / 4096 * 4096 ≤ e.length
  omega

theorem truncate_disjoint (m : Memmap)
    : (m.entries.map truncate).Pairwise fun e1 e2 =>
        e1.type = .usable → e2.type = .usable → e1.Disjoint e2 := by
  rw [List.pairwise_map]
  apply m.usable_disjoint.imp
  intro e1 e2 hdisj h1 h2
  have hdisj := hdisj h1 h2
  have hle1 := truncate_length_le e1
  have hle2 := truncate_length_le e2
  unfold MemmapEntry.Disjoint at hdisj ⊢
  show e1.base + (truncate e1).length ≤ e2.base ∨ e2.base + (truncate e2).length ≤ e1.base
    ∨ (truncate e1).length = 0 ∨ (truncate e2).length = 0
  omega

theorem init_inv (m : Memmap) (s : State) (hinit : init m = some s)
    : Inv ∅ s ∧ Counts s ∧ ∀ (p : Nat), p ∈ avail s → Managed m s p := by
  unfold init at hinit
  dsimp only at hinit
  generalize htop : maxPhys (m.entries.map truncate) = top at hinit
  have htop_le : top ≤ 2 ^ 52 := by
    rw [← htop]
    exact maxPhys_le _
  split at hinit
  . contradiction
  . next hpos =>
    split at hinit
    . contradiction
    . next entries metaBase hplace =>
      simp only [Option.some.injEq] at hinit
      subst hinit
      have hplaced := place_placed _ _ _ _ hplace (truncate_disjoint m)
      have htop' : ∀ (e : MemmapEntry), e ∈ entries → e.type = .usable →
          e.base + e.length ≤ (top + 4095) / 4096 * 4096 := by
        intro e he htype
        obtain ⟨e0, he0, htype0, hbase, hlen⟩ := hplaced.sub e he
        have := le_maxPhys _ e0 he0 (htype0.trans htype)
        omega
      have hfresh := freshState_booting entries ((top + 4095) / 4096) metaBase
        (by omega) (by omega) htop'
      obtain ⟨hinv, hcounts, hframe, havail⟩ := initMaps_inv hfresh htop'
      refine ⟨hinv, hcounts, ?_⟩
      intro p hp
      obtain ⟨hzero, ⟨e, he, htype, hcov⟩, hboot⟩ := havail p hp
      constructor
      . exact hzero
      . obtain ⟨e0, he0, htype0, hbase0, hlen0⟩ := hplaced.sub e he
        rw [List.mem_map] at he0
        obtain ⟨e1, he1, heq⟩ := he0
        subst heq
        have hle := truncate_length_le e1
        refine ⟨e1, he1, htype0.trans htype, ?_⟩
        unfold MemmapEntry.Covers at hcov ⊢
        have hb : (truncate e1).base = e1.base := rfl
        omega
      . rw [hframe.metaBase, hframe.metaSize]
        have hdisj := hplaced.disjoint e he htype
        have hsize := totalMeta_pos (((top + 4095) / 4096 + 511) / 512)
          ((((top + 4095) / 4096 + 511) / 512 + 1023) / 1024) (by omega)
        unfold MemmapEntry.Covers at hcov
        simp only [freshState]
        omega
      . intro e0 he0 htype0 htouch
        obtain ⟨halign, hlen⟩ := m.bootloader_aligned e0 he0 htype0
        have hsame : truncate e0 = e0 := by
          unfold truncate MemmapEntry.shrink
          congr 1
          omega
        have hmem := hplaced.kept e0 (by rw [List.mem_map]; exact ⟨e0, he0, hsame⟩)
          (by simp [htype0])
        apply hboot e0 hmem
        unfold MemmapEntry.Touches at htouch
        unfold BootPage
        refine ⟨htype0, ?_, ?_, ?_⟩ <;> omega

end PMM
