import Skyline.PMM.Impl.Init

/-!
This module contains the agreement of the three bitmap levels and shows that the bulk transitions
keep it.
-/

namespace PMM

theorem wordsAll_iff (map : Bitmap) (w n : Nat) (val : BitVec 64)
    : wordsAll map w n val = true ↔ ∀ (idx : Nat), w ≤ idx → idx < w + n → map idx = val := by
  induction n generalizing w with
  | zero =>
    simp only [wordsAll, true_iff]
    intro idx h1 h2
    omega
  | succ _ ih =>
    simp only [wordsAll, Bool.and_eq_true, beq_iff_eq, ih]
    constructor
    . intro h idx h1 h2
      cases Nat.eq_or_lt_of_le h1 with
      | inl heq =>
        rw [← heq]
        exact h.left
      | inr => exact h.right idx (by omega) (by omega)
    . intro h
      exact ⟨h w (by omega) (by omega), fun idx h1 h2 => h idx (by omega) (by omega)⟩

theorem wordsAll_allOnes_iff (map : Bitmap) (w n : Nat)
    : wordsAll map w n (BitVec.allOnes 64) = true
        ↔
      ∀ (i : Nat), w * 64 ≤ i → i < (w + n) * 64 → bitTest map i = true := by
  rw [wordsAll_iff]
  constructor
  . intro h i h1 h2
    exact (word_eq_allOnes_iff map (i / 64)).mp (h (i / 64) (by omega) (by omega)) i rfl
  . intro h idx h1 h2
    rw [word_eq_allOnes_iff]
    intro i hi
    exact h i (by omega) (by omega)

theorem wordsAll_zero_iff (map : Bitmap) (w n : Nat)
    : wordsAll map w n 0#64 = true
        ↔
      ∀ (i : Nat), w * 64 ≤ i → i < (w + n) * 64 → bitTest map i = false := by
  rw [wordsAll_iff]
  constructor
  . intro h i h1 h2
    exact (word_eq_zero_iff map (i / 64)).mp (h (i / 64) (by omega) (by omega)) i rfl
  . intro h idx h1 h2
    rw [word_eq_zero_iff]
    intro i hi
    exact h i (by omega) (by omega)

theorem l2BlockFull_iff (s : State) (l2 : Nat)
    : l2BlockFull s l2 = true ↔ ∀ (p : Nat), p / 512 = l2 → bitTest s.l1Map p = true := by
  rw [l2BlockFull, wordsAll_allOnes_iff]
  constructor
  . intro h p hp
    exact h p (by omega) (by omega)
  . intro h p h1 h2
    exact h p (by omega)

structure Geometry (s : State) : Prop where
  pages_pos : 0 < s.bitmapPages
  pages_le : s.bitmapPages ≤ 2 ^ 40
  totalL2Bits_eq : s.totalL2Bits = (s.bitmapPages + 511) / 512
  totalL3Bits_eq : s.totalL3Bits = (s.totalL2Bits + 1023) / 1024
  shardCount_eq : s.shardCount = s.totalL3Bits
  firstPage_eq : ∀ (si : Nat), (s.shards si).firstPage = si * 524288
  npages_eq : ∀ (si : Nat), (s.shards si).npages = min (s.bitmapPages - si * 524288) 524288

/--
Every block is populated, the levels agree, and the bits behind the end of the managed memory are
set.
-/
structure Levels (s : State) : Prop extends Geometry s where
  inited : ∀ (l2 : Nat), l2 < s.totalL2Bits → bitTest s.initMap l2 = true
  l1_tail : ∀ (p : Nat), s.bitmapPages ≤ p → p < s.totalL2Bits * 512 → bitTest s.l1Map p = true
  l2_iff : ∀ (l2 : Nat), l2 < s.totalL2Bits →
    (bitTest s.l2Map l2 = true ↔ ∀ (p : Nat), p / 512 = l2 → bitTest s.l1Map p = true)
  l2_tail : ∀ (l2 : Nat), s.totalL2Bits ≤ l2 → l2 < s.totalL3Bits * 1024 →
    bitTest s.l2Map l2 = true
  l3_iff : ∀ (l3 : Nat), l3 < s.totalL3Bits →
    (bitTest s.l3Map l3 = true ↔ ∀ (l2 : Nat), l2 / 1024 = l3 → bitTest s.l2Map l2 = true)

variable {s s' : State}

variable {p : Nat} {s1 s2 s3 : State} {f g : Nat → Bool}

theorem Geometry.block_lt (h : Geometry s) (hp : p < s.bitmapPages)
    : p / 512 < s.totalL2Bits := by
  have := h.totalL2Bits_eq
  omega

theorem Geometry.shard_lt (h : Geometry s) (hp : p < s.bitmapPages)
    : p / 524288 < s.shardCount := by
  have := h.totalL2Bits_eq
  have := h.totalL3Bits_eq
  have := h.shardCount_eq
  omega

theorem Geometry.shardCount_pos (h : Geometry s) : 0 < s.shardCount := by
  have := h.shard_lt h.pages_pos
  omega

theorem ensureL2Init_eq (s : State) (l2 : Nat) (h : bitTest s.initMap l2 = true)
    : ensureL2Init s l2 = s := by
  simp [ensureL2Init, h]

theorem Levels.ensureL2Init_eq (h : Levels s) {l2 : Nat} (hl2 : l2 < s.totalL2Bits)
    : ensureL2Init s l2 = s :=
  PMM.ensureL2Init_eq s l2 (h.inited l2 hl2)

structure Frame (s s' : State) : Prop where
  memmap : s'.memmap = s.memmap
  totalL2Bits : s'.totalL2Bits = s.totalL2Bits
  totalL3Bits : s'.totalL3Bits = s.totalL3Bits
  bitmapPages : s'.bitmapPages = s.bitmapPages
  metaBase : s'.metaBase = s.metaBase
  metaSize : s'.metaSize = s.metaSize
  shardCount : s'.shardCount = s.shardCount
  firstPage : ∀ (si : Nat), (s'.shards si).firstPage = (s.shards si).firstPage
  npages : ∀ (si : Nat), (s'.shards si).npages = (s.shards si).npages

theorem Frame.refl (s : State) : Frame s s := by
  constructor <;> simp

theorem Frame.trans (h1 : Frame s1 s2) (h2 : Frame s2 s3) : Frame s1 s3 where
  memmap := h2.memmap.trans h1.memmap
  totalL2Bits := h2.totalL2Bits.trans h1.totalL2Bits
  totalL3Bits := h2.totalL3Bits.trans h1.totalL3Bits
  bitmapPages := h2.bitmapPages.trans h1.bitmapPages
  metaBase := h2.metaBase.trans h1.metaBase
  metaSize := h2.metaSize.trans h1.metaSize
  shardCount := h2.shardCount.trans h1.shardCount
  firstPage := fun si => (h2.firstPage si).trans (h1.firstPage si)
  npages := fun si => (h2.npages si).trans (h1.npages si)

theorem Frame.geometry (h : Frame s s') (hs : Geometry s) : Geometry s' where
  pages_pos := by
    rw [h.bitmapPages]
    exact hs.pages_pos
  pages_le := by
    rw [h.bitmapPages]
    exact hs.pages_le
  totalL2Bits_eq := by
    rw [h.totalL2Bits, h.bitmapPages]
    exact hs.totalL2Bits_eq
  totalL3Bits_eq := by
    rw [h.totalL3Bits, h.totalL2Bits]
    exact hs.totalL3Bits_eq
  shardCount_eq := by
    rw [h.shardCount, h.totalL3Bits]
    exact hs.shardCount_eq
  firstPage_eq := by
    intro si
    rw [h.firstPage]
    exact hs.firstPage_eq si
  npages_eq := by
    intro si
    rw [h.npages, h.bitmapPages]
    exact hs.npages_eq si

theorem Levels.of_maps_eq (h : Levels s) (hframe : Frame s s')
    (hinit : s'.initMap = s.initMap) (hl1 : s'.l1Map = s.l1Map) (hl2 : s'.l2Map = s.l2Map)
    (hl3 : s'.l3Map = s.l3Map) : Levels s' where
  toGeometry := hframe.geometry h.toGeometry
  inited := by
    rw [hframe.totalL2Bits, hinit]
    exact h.inited
  l1_tail := by
    rw [hframe.bitmapPages, hframe.totalL2Bits, hl1]
    exact h.l1_tail
  l2_iff := by
    rw [hframe.totalL2Bits, hl1, hl2]
    exact h.l2_iff
  l2_tail := by
    rw [hframe.totalL2Bits, hframe.totalL3Bits, hl2]
    exact h.l2_tail
  l3_iff := by
    rw [hframe.totalL3Bits, hl2, hl3]
    exact h.l3_iff

/--
Where a bit of an upper level and the bits below it are as before, they still agree.
-/
theorem Levels.remap (h : Levels s) (l1Map l2Map l3Map : Bitmap)
    (hl1 : ∀ (p : Nat), s.bitmapPages ≤ p → bitTest s.l1Map p = true → bitTest l1Map p = true)
    (hl2 : ∀ (l2 : Nat), s.totalL2Bits ≤ l2 → bitTest s.l2Map l2 = true → bitTest l2Map l2 = true)
    (h12 : ∀ (l2 : Nat), l2 < s.totalL2Bits →
      bitTest l2Map l2 = bitTest s.l2Map l2
      ∧ (∀ (p : Nat), p / 512 = l2 → bitTest l1Map p = bitTest s.l1Map p)
        ∨ (bitTest l2Map l2 = true ↔ ∀ (p : Nat), p / 512 = l2 → bitTest l1Map p = true))
    (h23 : ∀ (l3 : Nat), l3 < s.totalL3Bits →
      bitTest l3Map l3 = bitTest s.l3Map l3
      ∧ (∀ (l2 : Nat), l2 / 1024 = l3 → bitTest l2Map l2 = bitTest s.l2Map l2)
        ∨ (bitTest l3Map l3 = true ↔ ∀ (l2 : Nat), l2 / 1024 = l3 → bitTest l2Map l2 = true))
    : Levels { s with l1Map, l2Map, l3Map } where
  toGeometry := Frame.geometry (by constructor <;> simp) h.toGeometry
  inited := h.inited
  l1_tail := fun p hp hlt => hl1 p hp (h.l1_tail p hp hlt)
  l2_iff := by
    intro l2 hlt
    refine (h12 l2 hlt).elim (fun ⟨hbit, hsame⟩ => ?_) id
    show bitTest l2Map l2 = true ↔ _
    rw [hbit, h.l2_iff l2 hlt]
    exact forall₂_congr fun p hp => by rw [hsame p hp]
  l2_tail := fun l2 hge hlt => hl2 l2 hge (h.l2_tail l2 hge hlt)
  l3_iff := by
    intro l3 hlt
    refine (h23 l3 hlt).elim (fun ⟨hbit, hsame⟩ => ?_) id
    show bitTest l3Map l3 = true ↔ _
    rw [hbit, h.l3_iff l3 hlt]
    exact forall₂_congr fun l2 hl2 => by rw [hsame l2 hl2]

structure Marked (s s' : State) (l1 : Nat → Bool) : Prop where
  levels : Levels s'
  frame : Frame s s'
  l1_eq : ∀ (p : Nat), bitTest s'.l1Map p = l1 p
  shardFree_eq : ∀ (si : Nat), (s'.shards si).freePages = (s.shards si).freePages
  freePages_eq : s'.freePages = s.freePages
  pmmCache_eq : s'.pmmCache = s.pmmCache

theorem Marked.congr (h : Marked s s' f)
    (hfg : ∀ (p : Nat), f p = g p) : Marked s s' g where
  __ := h
  l1_eq := fun p => (h.l1_eq p).trans (hfg p)

theorem Levels.marked_refl (h : Levels s) : Marked s s (bitTest s.l1Map) where
  levels := h
  frame := Frame.refl s
  l1_eq := fun _ => rfl
  shardFree_eq := fun _ => rfl
  freePages_eq := rfl
  pmmCache_eq := rfl

theorem Marked.trans (h1 : Marked s1 s2 f)
    (h2 : Marked s2 s3 g) : Marked s1 s3 g where
  __ := h2
  frame := h1.frame.trans h2.frame
  shardFree_eq := fun si => (h2.shardFree_eq si).trans (h1.shardFree_eq si)
  freePages_eq := h2.freePages_eq.trans h1.freePages_eq
  pmmCache_eq := h2.pmmCache_eq.trans h1.pmmCache_eq

end PMM
