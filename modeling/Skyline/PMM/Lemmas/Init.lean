import Skyline.PMM.Lemmas.Free

/-!
This module contains the correctness of the initialisation.
-/

namespace PMM

def Usable (entries : List MemmapEntry) (p : Nat) : Prop :=
  ∃ (e : MemmapEntry), e ∈ entries ∧ e.type = .usable ∧ e.Covers p

theorem common_pages_iff (base stop lo hi p : Nat)
    : (((if base > lo then base else lo) + 4095) / 4096 * 4096 / 4096 ≤ p
        ∧ p < (if stop < hi then stop else hi) / 4096 * 4096 / 4096)
        ↔
      (base ≤ p * 4096 ∧ (p + 1) * 4096 ≤ stop) ∧ lo ≤ p * 4096 ∧ (p + 1) * 4096 ≤ hi := by
  split <;> split <;> omega

theorem bitTest_ite_bitsClear (map : Bitmap) (s t p : Nat)
    : bitTest (if s < t then bitsClear map (s / 4096) (t / 4096) else map) p = true
        ↔
      bitTest map p = true ∧ ¬(s / 4096 ≤ p ∧ p < t / 4096) := by
  split
  . rw [bitTest_bitsClear]
    simp only [Bool.and_eq_true, Bool.not_eq_true', decide_eq_false_iff_not]
  . next hge =>
    have : ¬(s / 4096 ≤ p ∧ p < t / 4096) := by omega
    simp only [this, not_false_iff, and_true]

theorem bitTest_clearUsable (l1Map : Bitmap) (l2 : Nat) (e : MemmapEntry) (p : Nat)
    : bitTest (clearUsable l1Map l2 e) p = true
        ↔
      bitTest l1Map p = true ∧ ¬(e.type = .usable ∧ e.Covers p ∧ p / 512 = l2) := by
  have hpage : p / 512 = l2
      ↔ l2 * 2097152 ≤ p * 4096 ∧ (p + 1) * 4096 ≤ l2 * 2097152 + 2097152 := by
    omega
  unfold clearUsable MemmapEntry.Covers
  dsimp only
  rw [hpage, ← common_pages_iff e.base (e.base + e.length) (l2 * 2097152)
    (l2 * 2097152 + 2097152) p]
  split
  . next htype => simp [htype]
  . next htype =>
    simp only [ne_eq, not_not] at htype
    simp only [htype, true_and]
    split
    . next hout =>
      rw [common_pages_iff]
      constructor
      . intro hset
        refine ⟨hset, ?_⟩
        rintro ⟨⟨h1, h2⟩, h3, h4⟩
        omega
      . exact fun h => h.left
    . rw [bitTest_ite_bitsClear]

theorem bitTest_foldl_clearUsable (entries : List MemmapEntry) (l1Map : Bitmap) (l2 p : Nat)
    : bitTest (entries.foldl (fun l1Map e => clearUsable l1Map l2 e) l1Map) p = true
        ↔
      bitTest l1Map p = true ∧ ¬(Usable entries p ∧ p / 512 = l2) := by
  induction entries generalizing l1Map with
  | nil => simp [Usable]
  | cons e _ ih =>
    simp only [List.foldl_cons, ih, bitTest_clearUsable, Usable, List.mem_cons]
    constructor
    . rintro ⟨⟨hset, hhead⟩, htail⟩
      refine ⟨hset, ?_⟩
      rintro ⟨⟨e', he' | he', htype, hcov⟩, hp⟩
      . subst he'
        exact hhead ⟨htype, hcov, hp⟩
      . exact htail ⟨⟨e', he', htype, hcov⟩, hp⟩
    . rintro ⟨hset, hall⟩
      refine ⟨⟨hset, ?_⟩, ?_⟩
      . rintro ⟨htype, hcov, hp⟩
        exact hall ⟨⟨e, Or.inl rfl, htype, hcov⟩, hp⟩
      . rintro ⟨⟨e', he', htype, hcov⟩, hp⟩
        exact hall ⟨⟨e', Or.inr he', htype, hcov⟩, hp⟩

structure Booting (s : State) (reserved : Nat → Prop) : Prop extends Geometry s where
  populated : ∀ (p : Nat), bitTest s.initMap (p / 512) = true →
    (bitTest s.l1Map p = true ↔ ¬Usable s.memmap p ∨ reserved p)
  untouched : ∀ (p : Nat), bitTest s.initMap (p / 512) = false → ¬reserved p
  usable_lt : ∀ (p : Nat), Usable s.memmap p → p < s.bitmapPages
  l2_tail : ∀ (l2 : Nat), s.totalL2Bits ≤ l2 → bitTest s.l2Map l2 = true
  shardFree_eq : ∀ (si : Nat), (s.shards si).freePages = 0
  freePages_eq : s.freePages = 0
  pmmCache_eq : ∀ (cpu : Nat), s.pmmCache cpu = []

variable {s : State} {reserved : Nat → Prop}

theorem Booting.congr {r1 r2 : Nat → Prop} (h : Booting s r1)
    (hr : ∀ (p : Nat), r1 p ↔ r2 p) : Booting s r2 := by
  have : r1 = r2 := by
    funext p
    exact propext (hr p)
  rw [← this]
  exact h

theorem Booting.setLevels (h : Booting s reserved)
    (l2Map l3Map : Bitmap)
    (htail : ∀ (l2 : Nat), s.totalL2Bits ≤ l2 → bitTest l2Map l2 = true)
    : Booting { s with l2Map, l3Map } reserved where
  __ := h
  toGeometry := Frame.geometry (by constructor <;> simp) h.toGeometry
  l2_tail := htail

theorem ensureL2Init_frame (s : State) (l2 : Nat) : Frame s (ensureL2Init s l2) := by
  unfold ensureL2Init
  split
  . exact Frame.refl s
  . constructor <;> simp

theorem bitTest_ensureL2Init_initMap (s : State) (l2 idx : Nat)
    : bitTest (ensureL2Init s l2).initMap idx = (bitTest s.initMap idx || decide (idx = l2)) := by
  unfold ensureL2Init
  split
  . next hset =>
    by_cases heq : idx = l2
    . subst heq
      simp [hset]
    . simp [heq]
  . rw [bitTest_bitSet]

theorem ensureL2Init_booting (h : Booting s reserved) (l2 : Nat)
    : Booting (ensureL2Init s l2) reserved := by
  unfold ensureL2Init
  split
  . exact h
  . next hfresh =>
    simp only [Bool.not_eq_true] at hfresh
    constructor
    . exact Frame.geometry (by constructor <;> simp) h.toGeometry
    . intro p hp
      dsimp only at hp ⊢
      rw [bitTest_foldl_clearUsable, bitTest_fillWords, BitVec.getLsbD_allOnes]
      rw [bitTest_bitSet] at hp
      by_cases hl2 : p / 512 = l2
      . have hnot := h.untouched p (by rw [hl2]; exact hfresh)
        have hin : l2 * 8 ≤ p / 64 ∧ p / 64 < l2 * 8 + 8 := by omega
        simp only [hin, and_self, ↓reduceIte, hl2, and_true, hnot, or_false]
        simp [Nat.mod_lt]
      . have hout : ¬(l2 * 8 ≤ p / 64 ∧ p / 64 < l2 * 8 + 8) := by omega
        simp only [hl2, decide_false, Bool.or_false] at hp
        simp only [hout, ↓reduceIte, hl2, and_false, not_false_iff, and_true]
        exact h.populated p hp
    . intro p hp
      dsimp only at hp
      rw [bitTest_bitSet, Bool.or_eq_false_iff] at hp
      exact h.untouched p hp.left
    . exact h.usable_lt
    . exact h.l2_tail
    . exact h.shardFree_eq
    . exact h.freePages_eq
    . exact h.pmmCache_eq

theorem Booting.reserve (h : Booting s reserved) (l2 : Nat)
    (hinit : bitTest s.initMap l2 = true) (l1Map : Bitmap) (mask : Nat → Bool)
    (hl1 : ∀ (p : Nat), bitTest l1Map p = (bitTest s.l1Map p || mask p))
    (hmask : ∀ (p : Nat), mask p = true → p / 512 = l2)
    : Booting { s with l1Map } (fun p => reserved p ∨ mask p = true) where
  __ := h
  toGeometry := Frame.geometry (by constructor <;> simp) h.toGeometry
  populated := by
    intro p hp
    dsimp only at hp ⊢
    rw [hl1, Bool.or_eq_true, h.populated p hp, or_assoc]
  untouched := by
    rintro p hp (hr | hm)
    . exact h.untouched p hp hr
    . dsimp only at hp
      rw [hmask p hm, hinit] at hp
      contradiction

namespace markAllocated

theorem block_booting (h : Booting s reserved)
    (start stop l2 : Nat) (hlt : start < stop) (h1 : start / 512 ≤ l2) (h2 : l2 ≤ (stop - 1) / 512)
    : Booting (block start stop l2 s)
          (fun p => reserved p ∨ (start ≤ p ∧ p < stop ∧ p / 512 = l2))
        ∧ Frame s (block start stop l2 s) := by
  have hinit := ensureL2Init_booting h l2
  have hframe := ensureL2Init_frame s l2
  have hset : bitTest (ensureL2Init s l2).initMap l2 = true := by
    simp [bitTest_ensureL2Init_initMap]
  unfold block
  generalize ensureL2Init s l2 = s1 at hinit hframe hset
  have hres := hinit.reserve l2 hset
    (bitsSet s1.l1Map (blockRange start stop l2).1 (blockRange start stop l2).2)
    (fun p => decide (start ≤ p ∧ p < stop ∧ p / 512 = l2)) ?l1 ?mask
  case l1 =>
    intro p
    rw [bitTest_bitsSet]
    simp only [blockRange_iff start stop l2 p hlt h1 h2]
  case mask =>
    intro p hp
    simp only [decide_eq_true_eq] at hp
    exact hp.right.right
  simp only [decide_eq_true_eq] at hres
  dsimp only
  split
  . rw [l2FullPropagate_eq]
    constructor
    . apply hres.setLevels
      intro idx hidx
      rw [bitTest_bitSet, hinit.l2_tail idx hidx]
      rfl
    . exact hframe.trans (by constructor <;> simp)
  . exact ⟨hres, hframe.trans (by constructor <;> simp)⟩

end markAllocated

theorem markAllocated_booting (h : Booting s reserved)
    (start n : Nat) (hn : 0 < n)
    : Booting (markAllocated s start n) (fun p => reserved p ∨ (start ≤ p ∧ p < start + n))
        ∧ Frame s (markAllocated s start n) := by
  have hloop := Loop.forRange_induct (markAllocated.block start (start + n))
    (fun l2 s' => Booting s'
        (fun p => reserved p ∨ (start ≤ p ∧ p < start + n ∧ p / 512 < l2)) ∧ Frame s s')
    (start / 512) ((start + n - 1) / 512 + 1 - start / 512) s ?init ?step
  case init =>
    refine ⟨?_, Frame.refl s⟩
    apply h.congr
    intro p
    have : ¬(start ≤ p ∧ p < start + n ∧ p / 512 < start / 512) := by omega
    simp [this]
  case step =>
    intro l2 t h1 h2 ht
    obtain ⟨hboot, hframe⟩ := ht
    have hblock := markAllocated.block_booting hboot start (start + n) l2 (by omega) h1 (by omega)
    refine ⟨?_, hframe.trans hblock.right⟩
    apply hblock.left.congr
    intro p
    rw [or_assoc]
    apply or_congr_right
    omega
  obtain ⟨hboot, hframe⟩ := hloop
  refine ⟨?_, hframe⟩
  apply hboot.congr
  intro p
  apply or_congr_right
  omega

def BootPage (e : MemmapEntry) (p : Nat) : Prop :=
  e.type = .bootloaderReclaimable ∧ e.length ≠ 0 ∧ e.base / 4096 ≤ p
    ∧ p < e.base / 4096 + (e.length + 4095) / 4096

theorem reserveBootloaderMemory.reserve_booting
    (h : Booting s reserved) (e : MemmapEntry)
    : ∃ (reserved' : Nat → Prop),
        Booting (reserve s e) reserved' ∧ Frame s (reserve s e)
        ∧ (∀ (p : Nat), reserved p → reserved' p)
          ∧ ∀ (p : Nat), p < s.bitmapPages → BootPage e p → reserved' p := by
  have hskip : ¬(e.type = .bootloaderReclaimable ∧ e.length ≠ 0 ∧ e.base / 4096 < s.bitmapPages) →
      reserve s e = s := by
    intro hnot
    unfold reserve
    dsimp only
    split
    . rfl
    . split
      . rfl
      . split
        . rfl
        . exfalso
          apply hnot
          simp_all
  by_cases hdo : e.type = .bootloaderReclaimable ∧ e.length ≠ 0 ∧ e.base / 4096 < s.bitmapPages
  . obtain ⟨htype, hlen, hfirst⟩ := hdo
    have hmark := markAllocated_booting h (e.base / 4096)
      (if (e.length + 4095) / 4096 > s.bitmapPages - e.base / 4096
        then s.bitmapPages - e.base / 4096
        else (e.length + 4095) / 4096) (by split <;> omega)
    have heq : reserve s e = markAllocated s (e.base / 4096)
        (if (e.length + 4095) / 4096 > s.bitmapPages - e.base / 4096
          then s.bitmapPages - e.base / 4096
          else (e.length + 4095) / 4096) := by
      unfold reserve
      dsimp only
      rw [if_neg (by simp [htype]), if_neg hlen, if_neg (by omega)]
    rw [heq]
    refine ⟨_, hmark.left, hmark.right, fun p hp => Or.inl hp, ?_⟩
    intro p hp hboot
    right
    obtain ⟨_, _, h1, h2⟩ := hboot
    refine ⟨h1, ?_⟩
    split <;> omega
  . rw [hskip hdo]
    refine ⟨reserved, h, Frame.refl s, fun p hp => hp, ?_⟩
    intro p hp hboot
    obtain ⟨htype, hlen, h1, _⟩ := hboot
    exact absurd ⟨htype, hlen, by omega⟩ hdo

theorem foldl_reserve_booting (entries : List MemmapEntry)
    (h : Booting s reserved)
    : ∃ (reserved' : Nat → Prop),
        Booting (entries.foldl reserveBootloaderMemory.reserve s) reserved'
          ∧ Frame s (entries.foldl reserveBootloaderMemory.reserve s)
          ∧ (∀ (p : Nat), reserved p → reserved' p)
          ∧ ∀ (e : MemmapEntry) (p : Nat), e ∈ entries → p < s.bitmapPages → BootPage e p →
              reserved' p := by
  induction entries generalizing s reserved with
  | nil => exact ⟨reserved, h, Frame.refl s, fun p hp => hp, by simp⟩
  | cons e _ ih =>
    obtain ⟨r1, hboot1, hframe1, hsub1, hpage1⟩ := reserveBootloaderMemory.reserve_booting h e
    obtain ⟨r2, hboot2, hframe2, hsub2, hpage2⟩ := ih hboot1
    refine ⟨r2, hboot2, hframe1.trans hframe2, fun p hp => hsub2 p (hsub1 p hp), ?_⟩
    intro e' p he' hp hboot
    rw [List.mem_cons] at he'
    cases he' with
    | inl heq =>
      subst heq
      exact hsub2 p (hpage1 p hp hboot)
    | inr hmem => exact hpage2 e' p hmem (by rw [hframe1.bitmapPages]; exact hp) hboot

theorem bitTest_ite (map : Bitmap) (i j : Nat) (b : Bool)
    : bitTest (if b then bitSet map i else bitClear map i) j = if j = i then b
      else bitTest map j := by
  cases b with
  | false =>
    rw [if_neg Bool.false_ne_true, bitTest_bitClear]
    split <;> simp [*]
  | true =>
    rw [if_pos rfl, bitTest_bitSet]
    split <;> simp [*]

theorem recomputeL2_eq (l2 : Nat) (s : State)
    : recomputeL2 l2 s = { ensureL2Init s l2 with
        l2Map := if l2BlockFull (ensureL2Init s l2) l2 then bitSet (ensureL2Init s l2).l2Map l2
          else bitClear (ensureL2Init s l2).l2Map l2 } := by
  unfold recomputeL2
  dsimp only
  split <;> rfl

theorem recomputeL3_eq (l3 : Nat) (s : State)
    : recomputeL3 l3 s = { s with
        l3Map := if wordsAll s.l2Map (l3 * 16) 16 (BitVec.allOnes 64) then bitSet s.l3Map l3
          else bitClear s.l3Map l3 } := by
  unfold recomputeL3
  split <;> rfl

theorem recomputeL2_booting (h : Booting s reserved)
    : let s' := Loop.forRange recomputeL2 0 s.totalL2Bits s
      Booting s' reserved ∧ Frame s s'
        ∧ ∀ (l2 : Nat), l2 < s.totalL2Bits →
            bitTest s'.initMap l2 = true
              ∧ (bitTest s'.l2Map l2 = true
                ↔ ∀ (p : Nat), p / 512 = l2 → ¬Usable s.memmap p ∨ reserved p) := by
  have hloop := Loop.forRange_induct (recomputeL2)
    (fun i s' => Booting s' reserved ∧ Frame s s'
      ∧ ∀ (l2 : Nat), l2 < i →
          bitTest s'.initMap l2 = true
            ∧ (bitTest s'.l2Map l2 = true
              ↔ ∀ (p : Nat), p / 512 = l2 → ¬Usable s.memmap p ∨ reserved p))
    0 s.totalL2Bits s ⟨h, Frame.refl s, by omega⟩ ?step
  case step =>
    intro i t _ hi ht
    obtain ⟨hboot, hframe, hdone⟩ := ht
    have hinit := ensureL2Init_booting hboot i
    have hframe' := ensureL2Init_frame t i
    have hbit := bitTest_ensureL2Init_initMap t i
    have hl2 : (ensureL2Init t i).l2Map = t.l2Map := by
      unfold ensureL2Init
      split <;> rfl
    rw [recomputeL2_eq]
    generalize ensureL2Init t i = t1 at hinit hframe' hbit hl2
    have hmemmap : t1.memmap = s.memmap := hframe'.memmap.trans hframe.memmap
    have htotal : t1.totalL2Bits = s.totalL2Bits := hframe'.totalL2Bits.trans hframe.totalL2Bits
    have hfull := l2BlockFull_iff t1 i
    have hblock : (∀ (p : Nat), p / 512 = i → bitTest t1.l1Map p = true)
        ↔ ∀ (p : Nat), p / 512 = i → ¬Usable s.memmap p ∨ reserved p := by
      apply forall_congr'
      intro p
      apply imp_congr_right
      intro hp
      rw [← hmemmap]
      exact hinit.populated p (by rw [hbit, hp]; simp)
    have hold : ∀ (l2 : Nat), l2 < i → bitTest t1.initMap l2 = true
        ∧ (bitTest t1.l2Map l2 = true
          ↔ ∀ (p : Nat), p / 512 = l2 → ¬Usable s.memmap p ∨ reserved p) := by
      intro l2 hlt
      obtain ⟨h1, h2⟩ := hdone l2 hlt
      rw [hbit, hl2, h1]
      exact ⟨rfl, h2⟩
    refine ⟨?_, (hframe.trans hframe').trans (by constructor <;> simp), ?_⟩
    . apply hinit.setLevels _ t1.l3Map
      intro l2 hl2'
      rw [bitTest_ite, if_neg (by omega)]
      exact hinit.l2_tail l2 hl2'
    . intro l2 hlt
      dsimp only
      rw [bitTest_ite]
      by_cases heq : l2 = i
      . subst heq
        rw [if_pos rfl, hbit]
        exact ⟨by simp, hfull.trans hblock⟩
      . rw [if_neg heq]
        exact hold l2 (by omega)
  rw [Nat.zero_add] at hloop
  exact hloop

theorem recomputeL3_booting (h : Booting s reserved)
    : let s' := Loop.forRange recomputeL3 0 s.totalL3Bits s
      Booting s' reserved ∧ Frame s s' ∧ s'.initMap = s.initMap ∧ s'.l2Map = s.l2Map
        ∧ ∀ (l3 : Nat), l3 < s.totalL3Bits →
            (bitTest s'.l3Map l3 = true
              ↔ ∀ (l2 : Nat), l2 / 1024 = l3 → bitTest s.l2Map l2 = true) := by
  have hloop := Loop.forRange_induct (recomputeL3)
    (fun i s' => Booting s' reserved ∧ Frame s s' ∧ s'.initMap = s.initMap ∧ s'.l2Map = s.l2Map
      ∧ ∀ (l3 : Nat), l3 < i →
          (bitTest s'.l3Map l3 = true ↔ ∀ (l2 : Nat), l2 / 1024 = l3 → bitTest s.l2Map l2 = true))
    0 s.totalL3Bits s ⟨h, Frame.refl s, rfl, rfl, by omega⟩ ?step
  case step =>
    intro i t _ hi ht
    obtain ⟨hboot, hframe, hinit, hl2, hdone⟩ := ht
    have hall : wordsAll t.l2Map (i * 16) 16 (BitVec.allOnes 64) = true
        ↔ ∀ (l2 : Nat), l2 / 1024 = i → bitTest s.l2Map l2 = true := by
      rw [wordsAll_allOnes_iff, hl2]
      constructor
      . intro hall l2 hl2
        exact hall l2 (by omega) (by omega)
      . intro hall l2 h1 h2
        exact hall l2 (by omega)
    rw [recomputeL3_eq]
    refine ⟨hboot.setLevels t.l2Map _ hboot.l2_tail, hframe.trans (by constructor <;> simp), hinit,
      hl2, ?_⟩
    intro l3 hlt
    dsimp only
    rw [bitTest_ite]
    by_cases heq : l3 = i
    . subst heq
      rw [if_pos rfl, hall]
    . rw [if_neg heq]
      exact hdone l3 (by omega)
  rw [Nat.zero_add] at hloop
  exact hloop

end PMM
