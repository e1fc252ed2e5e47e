import Skyline.PMM.Lemmas.Boot
import Skyline.Pool.Basic

/-!
This module contains the runs of the physical memory manager under its callers.
-/

namespace PMM

inductive Op where
  | request (cpu : Option Nat) (n : Nat)
  | free (cpu : Option Nat) (ptr n : Nat)
  | request2MB
  | request2GB
  | free2MB (ptr : Nat)
  | free2GB (ptr : Nat)
  deriving DecidableEq, Repr

structure Sys where
  pmm : State
  live : List (Nat × Nat)

variable {m : Memmap} {s : State} {sys : Sys}

namespace Sys

def handOut (sys : Sys) (n : Nat) (res : Option Nat × State) : Sys :=
  match res with
  | (none, pmm) => { sys with pmm }
  | (some ptr, pmm) => { pmm, live := (ptr, n) :: sys.live }

def exec (sys : Sys) (op : Op) : Sys :=
  match op with
  | .request cpu n => sys.handOut n (PMM.request sys.pmm cpu n)
  | .free cpu ptr n => { pmm := PMM.free sys.pmm cpu ptr n, live := sys.live.erase (ptr, n) }
  | .request2MB => sys.handOut 512 (PMM.request2MB sys.pmm)
  | .request2GB => sys.handOut 524288 (PMM.request2GB sys.pmm)
  | .free2MB ptr => { pmm := PMM.free2MB sys.pmm ptr, live := sys.live.erase (ptr, 512) }
  | .free2GB ptr => { pmm := PMM.free2GB sys.pmm ptr, live := sys.live.erase (ptr, 524288) }

def run (sys : Sys) (ops : List Op) : Sys :=
  ops.foldl exec sys

def Owned (sys : Sys) (op : Op) : Prop :=
  match op with
  | .free _ ptr n => (ptr, n) ∈ sys.live
  | .free2MB ptr => (ptr, 512) ∈ sys.live
  | .free2GB ptr => (ptr, 524288) ∈ sys.live
  | _ => True

instance (sys : Sys) (op : Op) : Decidable (sys.Owned op) := by
  unfold Owned
  split <;> infer_instance

def OwnedRun (sys : Sys) (ops : List Op) : Prop :=
  match ops with
  | [] => True
  | op :: ops => sys.Owned op ∧ (sys.exec op).OwnedRun ops

instance decidableOwnedRun (sys : Sys) (ops : List Op) : Decidable (sys.OwnedRun ops) :=
  match ops with
  | [] => isTrue trivial
  | op :: ops =>
    have := decidableOwnedRun (sys.exec op) ops
    inferInstanceAs (Decidable (_ ∧ _))

def units (r : Nat × Nat) : Set Nat :=
  pagesAt r.1 r.2

def pool (sys : Sys) : Pool Nat (Nat × Nat) where
  avail := avail sys.pmm
  live := sys.live

structure Good (m : Memmap) (s : State) (sys : Sys) : Prop where
  inv : Inv ∅ sys.pmm
  counts : Counts sys.pmm
  frame : Frame s sys.pmm
  blocks : ∀ (r : Nat × Nat), r ∈ sys.live → r.1 % 4096 = 0 ∧ 0 < r.2
  sound : Pool.Sound units { p | p < s.bitmapPages ∧ Managed m s p } sys.pool

theorem Good.releasable (h : Good m s sys) {ptr n : Nat}
    (hr : (ptr, n) ∈ sys.live) : Releasable ∅ sys.pmm ptr n where
  aligned := fun _ => (h.blocks _ hr).left
  ptr_pos := by
    have hblock := h.blocks _ hr
    have hmem : ptr / 4096 ∈ units (ptr, n) := by
      show ptr / 4096 ∈ (pagesAt ptr n : Set Nat)
      rw [Finset.mem_coe, pagesAt, Finset.mem_Ico]
      dsimp only at hblock
      omega
    have := (h.sound.live_managed _ hr hmem).right.ne_zero
    omega
  n_pos := (h.blocks _ hr).right
  lt := by
    intro p hp
    rw [h.frame.bitmapPages]
    exact (h.sound.live_managed _ hr (Finset.mem_coe.mpr hp)).left
  out := by
    intro p _ hp
    exact Set.disjoint_left.mp (h.sound.live_avail _ hr) (Finset.mem_coe.mpr hp)

theorem Good.of_step {sys' : Sys} (h : Good m s sys)
    {pages : Set Nat} (hchanged : Changed ∅ sys.pmm sys'.pmm pages)
    (hblocks : ∀ (r : Nat × Nat), r ∈ sys'.live → r ∈ sys.live ∨ (r.1 % 4096 = 0 ∧ 0 < r.2))
    (hstep : Pool.Step units sys.pool sys'.pool) : Good m s sys' where
  inv := hchanged.inv
  counts := hchanged.counts rfl h.counts
  frame := h.frame.trans hchanged.frame
  blocks := by
    intro r hr
    cases hblocks r hr with
    | inl hold => exact h.blocks r hold
    | inr hnew => exact hnew
  sound := hstep.sound h.sound

section

variable (h : Good m s sys)
include h

theorem handOut_good (n : Nat)
    (res : Option Nat × State) (hok : RequestOk ∅ sys.pmm n res)
    : Pool.Step units sys.pool (sys.handOut n res).pool ∧ Good m s (sys.handOut n res) := by
  match res with
  | (none, pmm) =>
    have hok : Changed ∅ sys.pmm pmm (avail sys.pmm) := hok
    have heq : (sys.handOut n (none, pmm)).pool = sys.pool := by
      simp only [handOut, pool, hok.avail_eq]
    have hstep : Pool.Step units sys.pool (sys.handOut n (none, pmm)).pool := by
      rw [heq]
      exact Pool.Step.idle _
    exact ⟨hstep, h.of_step hok (fun r hr => Or.inl hr) hstep⟩
  | (some ptr, pmm) =>
    have hok : Granted ∅ sys.pmm pmm n ptr := hok
    have heq : (sys.handOut n (some ptr, pmm)).pool
        = { avail := sys.pool.avail \ units (ptr, n), live := (ptr, n) :: sys.pool.live } := by
      simp only [handOut, pool, hok.changed.avail_eq, units]
    have hstep : Pool.Step units sys.pool (sys.handOut n (some ptr, pmm)).pool := by
      rw [heq]
      exact Pool.Step.take _ _ fun p hp => hok.inside p (by simp) hp
    refine ⟨hstep, h.of_step hok.changed ?_ hstep⟩
    intro r hr
    have hr : r ∈ (ptr, n) :: sys.live := hr
    rw [List.mem_cons] at hr
    cases hr with
    | inl heq =>
      rw [heq]
      exact Or.inr ⟨hok.aligned (by simp), hok.pos⟩
    | inr hmem => exact Or.inl hmem

theorem takeBack_good (ptr n : Nat)
    (hr : (ptr, n) ∈ sys.live) (pmm : State)
    (hok : Changed ∅ sys.pmm pmm (avail sys.pmm ∪ pagesAt ptr n))
    : Pool.Step units sys.pool (pool { pmm, live := sys.live.erase (ptr, n) })
        ∧ Good m s { pmm, live := sys.live.erase (ptr, n) } := by
  have hstep : Pool.Step units sys.pool (pool { pmm, live := sys.live.erase (ptr, n) }) := by
    simp only [pool, hok.avail_eq]
    exact Pool.Step.give sys.pool (ptr, n) hr
  exact ⟨hstep, h.of_step hok (fun r hr => Or.inl (List.mem_of_mem_erase hr)) hstep⟩

theorem freeBlock_good (ptr n : Nat)
    (hr : (ptr, n) ∈ sys.live) (hn : n ∣ 524288)
    : Pool.Step units sys.pool
          (pool { pmm := freeBlock sys.pmm ptr n, live := sys.live.erase (ptr, n) })
        ∧ Good m s { pmm := freeBlock sys.pmm ptr n, live := sys.live.erase (ptr, n) } := by
  have hrel := h.releasable hr
  by_cases halign : ptr / 4096 % n = 0
  . exact takeBack_good h ptr n hr _ (freeBlock_changed h.inv ptr n hrel halign hn)
  . have hsame : freeBlock sys.pmm ptr n = sys.pmm := by
      have := hrel.ptr_pos
      unfold freeBlock
      dsimp only
      rw [if_neg (by omega), if_pos halign]
    rw [hsame]
    have hstep : Pool.Step units sys.pool
        (pool { pmm := sys.pmm, live := sys.live.erase (ptr, n) }) :=
      Pool.Step.lose _ _ hr
    exact ⟨hstep,
      h.of_step (Changed.refl h.inv) (fun r hr => Or.inl (List.mem_of_mem_erase hr)) hstep⟩

theorem exec_good (op : Op)
    (howned : sys.Owned op)
    : Pool.Step units sys.pool (sys.exec op).pool ∧ Good m s (sys.exec op) := by
  cases op with
  | request cpu n => exact handOut_good h n _ (request_ok h.inv cpu n)
  | free cpu ptr n =>
    exact takeBack_good h ptr n howned _ (free_changed h.inv cpu ptr n (h.releasable howned))
  | request2MB => exact handOut_good h 512 _ (request2MB_ok h.inv)
  | request2GB => exact handOut_good h 524288 _ (request2GB_ok h.inv)
  | free2MB ptr => exact freeBlock_good h ptr 512 howned (by decide)
  | free2GB ptr => exact freeBlock_good h ptr 524288 howned (by decide)

end

theorem run_good (ops : List Op) (h : Good m s sys)
    (howned : sys.OwnedRun ops)
    : Pool.Run units sys.pool (sys.run ops).pool ∧ Good m s (sys.run ops) := by
  induction ops generalizing sys with
  | nil => exact ⟨Relation.ReflTransGen.refl, h⟩
  | cons op _ ih =>
    obtain ⟨hop, hops⟩ := howned
    obtain ⟨hstep, hgood⟩ := exec_good h op hop
    obtain ⟨hrun, hgood'⟩ := ih hgood hops
    exact ⟨Relation.ReflTransGen.head hstep hrun, hgood'⟩

theorem init_good (m : Memmap) (s : State) (hinit : init m = some s)
    : Good m s { pmm := s, live := [] } := by
  obtain ⟨hinv, hcounts, hmanaged⟩ := init_inv m s hinit
  constructor
  . exact hinv
  . exact hcounts
  . exact Frame.refl s
  . simp
  . constructor
    . exact List.Pairwise.nil
    . intro r hr
      cases hr
    . intro r hr
      cases hr
    . intro p hp
      exact ⟨hinv.avail_lt hp, hmanaged p hp⟩

end Sys

def smallMemmap : Memmap where
  entries := [
    { base := 0, length := 16384, type := .usable, fits := by decide },
    { base := 16384, length := 65536, type := .bootloaderReclaimable, fits := by decide },
    { base := 81920, length := 49152, type := .usable, fits := by decide }
  ]
  usable_disjoint := by decide
  bootloader_aligned := by decide

theorem init_smallMemmap : (init smallMemmap).isSome = true := by
  decide +kernel

def smallState : State :=
  (init smallMemmap).get init_smallMemmap

theorem init_smallMemmap_eq : init smallMemmap = some smallState := by
  simp [smallState]

/--
Whatever its callers do, as long as they free only what they own, the manager never hands out a page
twice, a cached page, page 0, a page outside the usable memory, a page of its own metadata or a page
of the boot loader.
-/
theorem live_pages_apart (m : Memmap) (s : State) (ops : List Op) (hinit : init m = some s)
    (howned : Sys.OwnedRun { pmm := s, live := [] } ops)
    : let sys := Sys.run { pmm := s, live := [] } ops
      (sys.live.Pairwise fun r1 r2 => Disjoint (pagesAt r1.1 r1.2) (pagesAt r2.1 r2.2))
        ∧ ∀ (r : Nat × Nat) (p : Nat), r ∈ sys.live → p ∈ pagesAt r.1 r.2 →
            (∀ (cpu ptr : Nat), ptr ∈ sys.pmm.pmmCache cpu → ptr / 4096 ≠ p)
              ∧ p ≠ 0
              ∧ (∃ (e : MemmapEntry), e ∈ m.entries ∧ e.type = .usable ∧ e.Covers p)
              ∧ ((p + 1) * 4096 ≤ sys.pmm.metaBase
                  ∨ sys.pmm.metaBase + sys.pmm.metaSize ≤ p * 4096)
              ∧ ∀ (e : MemmapEntry), e ∈ m.entries → e.type = .bootloaderReclaimable →
                  ¬e.Touches p := by
  obtain ⟨_, hgood⟩ := Sys.run_good ops (Sys.init_good m s hinit) howned
  intro sys
  refine ⟨?_, ?_⟩
  . apply hgood.sound.live_disjoint.imp
    intro r1 r2 hdisj
    rw [← Finset.disjoint_coe]
    exact hdisj
  . intro r p hr hp
    have hp : p ∈ Sys.units r := Finset.mem_coe.mpr hp
    have hmanaged := (hgood.sound.live_managed r hr hp).right
    refine ⟨?_, hmanaged.ne_zero, hmanaged.usable, ?_, hmanaged.not_boot⟩
    . intro cpu ptr hptr heq
      apply Set.disjoint_left.mp (hgood.sound.live_avail r hr) hp
      right
      refine ⟨cpu, ?_⟩
      have := hgood.inv.caches.aligned cpu ptr (by simp) hptr
      rw [show p * 4096 = ptr by omega]
      exact hptr
    . rw [hgood.frame.metaBase, hgood.frame.metaSize]
      exact hmanaged.not_meta

theorem live_pages_apart_smallMemmap
    : init smallMemmap = some smallState
        ∧ (Sys.run { pmm := smallState, live := [] } [.request none 1, .request (some 0) 1]).live
            = [(8192, 1), (4096, 1)]
        ∧ (Sys.run { pmm := smallState, live := [] } [.request none 1,
          .request (some 0) 1]).live.Pairwise
            fun r1 r2 => Disjoint (pagesAt r1.1 r1.2) (pagesAt r2.1 r2.2) :=
  ⟨init_smallMemmap_eq, by decide +kernel,
    (live_pages_apart smallMemmap smallState [.request none 1, .request (some 0) 1]
      init_smallMemmap_eq (by decide +kernel)).left⟩

theorem verifyFreeCount_eq (h : Levels s) (hc : Counts s) : verifyFreeCount s = (0, s) := by
  have hloop := Loop.forRange_induct (verifyFreeCount.countBlock)
    (fun i acc => acc = (clearIn s.l1Map {p ∈ allPages s | p / 512 < i}, s))
    0 s.totalL2Bits (0, s) ?init ?step
  case init => simp [clearIn]
  case step =>
    intro i acc _ hi hacc
    subst hacc
    unfold verifyFreeCount.countBlock
    dsimp only
    rw [clearIn_filter_succ]
    split
    . next hset =>
      rw [h.l2_iff i (by omega)] at hset
      have hzero : clearIn s.l1Map {p ∈ allPages s | p / 512 = i} = 0 := by
        rw [clearIn, Finset.card_eq_zero, Finset.filter_eq_empty_iff]
        intro p hp
        simp only [Finset.mem_filter] at hp
        simp [hset p hp.right]
      rw [hzero, Nat.add_zero]
    . rw [h.ensureL2Init_eq (by omega), clearBits_block h i (by omega)]
  rw [Nat.zero_add] at hloop
  have hall : ({p ∈ allPages s | p / 512 < s.totalL2Bits} : Finset Nat) = allPages s := by
    rw [Finset.filter_eq_self]
    intro p hp
    exact h.block_lt ((mem_allPages s p).mp hp)
  rw [hall, ← hc.global_eq] at hloop
  unfold verifyFreeCount
  rw [hloop]
  simp

/--
As long as the callers free only what they own, the levels agree, every count is the number of clear
bits it stands for, and the recount finds no difference.
-/
theorem levels_and_counts_agree (m : Memmap) (s : State) (ops : List Op) (hinit : init m = some s)
    (howned : Sys.OwnedRun { pmm := s, live := [] } ops)
    : let pmm := (Sys.run { pmm := s, live := [] } ops).pmm
      (∀ (l2 : Nat), l2 < pmm.totalL2Bits → bitTest pmm.initMap l2 = true →
          (bitTest pmm.l2Map l2 = true ↔ ∀ (p : Nat), p / 512 = l2 → bitTest pmm.l1Map p = true))
        ∧ (∀ (l3 : Nat), l3 < pmm.totalL3Bits →
            (bitTest pmm.l3Map l3 = true
              ↔ ∀ (l2 : Nat), l2 / 1024 = l3 → bitTest pmm.l2Map l2 = true))
        ∧ (∀ (si : Nat), si < pmm.shardCount →
            (pmm.shards si).freePages = clearIn pmm.l1Map (shardPages pmm si))
        ∧ pmm.freePages = ∑ si ∈ Finset.range pmm.shardCount, (pmm.shards si).freePages
        ∧ (∀ (cpu ptr : Nat), ptr ∈ pmm.pmmCache cpu → bitTest pmm.l1Map (ptr / 4096) = true)
        ∧ (verifyFreeCount pmm).1 = 0 := by
  obtain ⟨_, hgood⟩ := Sys.run_good ops (Sys.init_good m s hinit) howned
  intro pmm
  have hinv : Inv ∅ pmm := hgood.inv
  have hcounts : Counts pmm := hgood.counts
  refine ⟨?_, hinv.levels.l3_iff, fun si hsi => hcounts.shard_eq hsi, ?_, ?_, ?_⟩
  . intro l2 hl2 _
    exact hinv.levels.l2_iff l2 hl2
  . rw [hcounts.global_eq, ← sum_clearIn_shardPages pmm hinv.levels.toGeometry]
    apply Finset.sum_congr rfl
    intro si hsi
    rw [Finset.mem_range] at hsi
    rw [hcounts.shard_eq hsi]
  . intro cpu ptr hptr
    exact hinv.caches.used cpu ptr (by simp) hptr
  . rw [verifyFreeCount_eq hinv.levels hcounts]

theorem levels_and_counts_agree_smallMemmap
    : init smallMemmap = some smallState
        ∧ (verifyFreeCount
            (Sys.run { pmm := smallState, live := [] } [.request (some 0) 1,
              .free (some 1) 4096 1]).pmm).1
            = 0 :=
  ⟨init_smallMemmap_eq,
    (levels_and_counts_agree smallMemmap smallState [.request (some 0) 1, .free (some 1) 4096 1]
      init_smallMemmap_eq (by decide +kernel)).right.right.right.right.right⟩

/--
A range that is freed twice is counted twice.
-/
theorem verifyFreeCount_double_free
    : init smallMemmap = some smallState
        ∧ (verifyFreeCount
            (Sys.run { pmm := smallState, live := [] }
              [.request none 1, .free none 4096 1, .free none 4096 1]).pmm).1 = 1 :=
  ⟨init_smallMemmap_eq, by decide +kernel⟩

end PMM
