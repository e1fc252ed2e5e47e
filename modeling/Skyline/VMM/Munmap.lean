import Skyline.VMM.Lemmas.Sweep
import Skyline.VMM.Regions

/-!
This module contains what `sys_munmap` does to the regions and to the mapped pages of an address
space.
-/

namespace VMM

def Pagemap.translate (map : Pagemap) (p : Nat) : Option (Nat × BitVec 64) :=
  let info := map.leaf p
  if info.size = 0 then none else some (info.phys / 4096 + p % (info.size / 4096), info.flags)

def InRange (addr length a : Nat) : Prop :=
  addr ≤ a ∧ a < addr + pagesOf length * 4096

instance (addr length a : Nat) : Decidable (InRange addr length a) :=
  inferInstanceAs (Decidable (_ ∧ _))

structure Unmaps (map map' : Pagemap) (addr length : Nat) : Prop where
  regions : ∀ a f, Covers map'.regions a f ↔ Covers map.regions a f ∧ ¬InRange addr length a
  inside : ∀ p < 2 ^ 36, InRange addr length (p * 4096) → map'.translate p = none
  outside : ∀ p < 2 ^ 36, ¬InRange addr length (p * 4096) → map'.translate p = map.translate p

/--
The address space of a process: its regions are in order and in the lower half, and the records that
`vma_alloc_node` hands out are not those of its regions.
-/
structure UserSpace (s : State) (pm : Nat) : Prop where
  laid : ∀ head ∈ (s.pagemap pm).vmaHead, Laid (s.pagemap pm) head
  low : ∀ r ∈ (s.pagemap pm).regions, r.stop ≤ 2 ^ 47
  fresh : FreshNode s pm

def Region.Sweeps (r : Region) (map : Pagemap) (p : Nat) : Prop :=
  map.Swept (!has r.flags vmmSharedBit) (r.start / 4096 + r.pageCount) (r.start / 4096) p

/--
The condition on a call: the range is the beginning of one region or all of it, there is a record
for the rest of the region, and no leaf of the page tables crosses the end of the range.
-/
def Munmappable (s : State) (pm addr length : Nat) : Prop :=
  addr ≠ 0 ∧ ∃ r ∈ (s.pagemap pm).regions, r.start = addr
    ∧ addr + pagesOf length * 4096 ≤ r.stop
    ∧ (addr + pagesOf length * 4096 = r.stop ∨ HasNode s)
    ∧ ∀ q ∈ List.range' (addr / 4096) (pagesOf length),
      (s.pagemap pm).Whole (addr / 4096) (addr / 4096 + pagesOf length) q

section

variable {s t s' : State} {pm addr length : Nat} {map map' : Pagemap} {head r : Region}

theorem Laid.findIn_some (h : Laid map head) (hfind : findIn map addr = some r)
    : r ∈ map.regions ∧ r.start ≤ addr / 4096 * 4096 ∧ addr / 4096 * 4096 < r.stop := by
  unfold findIn at hfind
  rw [h.sentinel] at hfind
  simp only at hfind
  split at hfind
  next => cases hfind
  next best hbest =>
    rw [h.tree] at hbest
    obtain ⟨l1, l2, hrs, -, -⟩ := findLe_some h.layout hbest
    have hmem : best ∈ map.regions := by simp [hrs]
    split at hfind
    next hin =>
      cases hfind
      rw [(h.layout.ok r hmem).regionEnd_eq] at hin
      exact ⟨hmem, hin⟩
    next => cases hfind

theorem splitPoint_eq {stop : Nat} (hok : r.Ok) (hlo : r.start < stop) (hhi : stop < r.stop)
    (haligned : stop % 4096 = 0)
    : splitPoint r stop = some stop := by
  have hpage : stop / 4096 * 4096 = stop := by omega
  unfold splitPoint
  simp only [hok.regionEnd_eq, hpage]
  rw [if_neg (by omega)]

theorem cutTail_ok {stop : Nat} (hspace : UserSpace s pm)
    (hhead : (s.pagemap pm).vmaHead = some head)
    (hr : r ∈ (s.pagemap pm).regions) (hlo : r.start < stop) (hhi : stop ≤ r.stop)
    (haligned : stop % 4096 = 0) (hnode : stop = r.stop ∨ HasNode s)
    (h : cutTail s pm r stop = .ok t)
    : Laid (t.pagemap pm) head ∧ (t.pagemap pm).root = (s.pagemap pm).root
      ∧ (∀ a f, Covers (t.pagemap pm).regions a f ↔ Covers (s.pagemap pm).regions a f)
      ∧ ∃ x ∈ (t.pagemap pm).regions, x.start = r.start ∧ x.stop = stop := by
  have hlaid := hspace.laid head hhead
  have hok := hlaid.layout.ok r hr
  unfold cutTail at h
  rw [hok.regionEnd_eq] at h
  split at h
  next hlt =>
    have hnot : r.node ≠ head.node := by
      have hnodes := hlaid.layout.nodes
      rw [List.nodup_cons] at hnodes
      exact fun heq => hnodes.1 (heq ▸ List.mem_map_of_mem hr)
    have hsplit := splitPoint_eq hok hlo hlt haligned
    obtain ⟨node, t', halloc⟩ := hnode.resolve_left (by omega)
    unfold splitRegion at h
    simp only [hhead, hsplit, if_neg hnot, halloc] at h
    cases h
    have hfresh := hspace.fresh.not_mem halloc
    rw [vmaNodes_of_head hhead] at hfresh
    obtain ⟨hlaid', hrecut, hfirst⟩ := splitAt_laid hlaid hr hsplit hfresh
    rw [setPagemap_self, vmaAllocNode_pagemap halloc]
    refine ⟨hlaid', rfl, hrecut.covers, _, hfirst, rfl, ?_⟩
    have hstart := hok.aligned
    simp only [Region.stop]
    omega
  next hge =>
    cases h
    exact ⟨hlaid, rfl, fun _ _ => Iff.rfl, r, hr, rfl, by omega⟩

structure FreedRegion (map map' : Pagemap) (r : Region) : Prop where
  regions : ∀ x, x ∈ map'.regions ↔ x ∈ map.regions ∧ x ≠ r
  cleared : map.Cleared map' (r.Sweeps map)

theorem free_ok (hpm : pm ≠ 0) (haligned : addr % 4096 = 0) (hlaid : Laid (t.pagemap pm) head)
    (hlow : ∀ x ∈ (t.pagemap pm).regions, x.stop ≤ 2 ^ 47) (hfind : findRegion t pm addr = some r)
    (h : free t pm addr = .ok s')
    : if addr ≠ 0 ∧ r.start = addr then FreedRegion (t.pagemap pm) (s'.pagemap pm) r
      else s' = t := by
  have hr := (hlaid.findIn_some hfind).1
  unfold free at h
  simp only [hfind, hlaid.sentinel] at h
  split at h
  next hnull =>
    cases h
    rw [if_neg (by omega)]
  next hnull =>
    split at h
    next hstart =>
      cases h
      rw [if_neg (by omega)]
    next hstart =>
      obtain ⟨t2, hdrop, h⟩ := bind_ok.mp h
      cases h
      rw [if_pos (by omega)]
      have hok := hlaid.layout.ok r hr
      generalize ht1 : t.setPagemap pm _ = t1 at hdrop
      have hroot : (t1.pagemap pm).root = (t.pagemap pm).root := by
        rw [← ht1, setPagemap_self]
        rfl
      have hcleared := freeRegion_cleared pm t1 hok.aligned (hlow r hr)
      have hmap : t2.pagemap pm
          = { t1.pagemap pm with entries := ((freeRegion t1 pm r).pagemap pm).entries } := by
        rw [(RecordsOnly.dropMapping hdrop).rest]
        exact (PagingOnly.freeRegion t1 pm r).pagemap pm
      have hhead : (t2.pagemap pm).vmaHead = some head := by
        rw [hmap, ← ht1, setPagemap_self]
      unfold removeRegion
      simp only [hhead, vmaFreeNode, setPagemap_self]
      constructor
      . intro x
        rw [← (unlink_laid hlaid hr).2 x, hmap, ← ht1, setPagemap_self]
        exact Iff.rfl
      . have hleaf : ∀ p, (unlinkRegion (t2.pagemap pm) head r.node).leaf p
            = ((freeRegion t1 pm r).pagemap pm).leaf p := by
          apply Pagemap.leaf_of_root
          rw [(PagingOnly.freeRegion t1 pm r).pagemap pm, hmap]
          rfl
        constructor
        . intro p hp hgone
          rw [hleaf p]
          exact hcleared.away p hp (Pagemap.swept_of_root hroot.symm hgone)
        . intro p hp hgone
          rw [hleaf p, ← Pagemap.leaf_of_root hroot p]
          exact hcleared.rest p hp fun h => hgone (Pagemap.swept_of_root hroot h)

theorem Layout.eq_of_inside {n a : Nat} {rs : List Region} {x : Region} (h : Layout n rs)
    (hx : x ∈ rs)
    (hr : r ∈ rs) (hax : x.start ≤ a ∧ a < x.stop) (har : r.start ≤ a ∧ a < r.stop) : x = r := by
  obtain ⟨l1, l2, hrs⟩ := List.append_of_mem hr
  have hapart := h.apart
  rw [hrs, List.pairwise_append, List.pairwise_cons] at hapart
  rw [hrs, List.mem_append, List.mem_cons] at hx
  rcases hx with hx | hx | hx
  . have := hapart.2.2 x hx r (by simp)
    omega
  . exact hx
  . have := hapart.2.1.1 x hx
    omega

theorem FreedRegion.covers (h : FreedRegion map map' r) (hlaid : Laid map head)
    (hr : r ∈ map.regions) (a : Nat) (f : BitVec 64)
    : Covers map'.regions a f ↔ Covers map.regions a f ∧ ¬(r.start ≤ a ∧ a < r.stop) := by
  constructor
  . rintro ⟨x, hx, hlo, hhi, hf⟩
    rw [h.regions] at hx
    refine ⟨⟨x, hx.1, hlo, hhi, hf⟩, fun har => hx.2 ?_⟩
    exact hlaid.layout.eq_of_inside hx.1 hr ⟨hlo, hhi⟩ har
  . rintro ⟨⟨x, hx, hlo, hhi, hf⟩, hout⟩
    refine ⟨x, (h.regions x).mpr ⟨hx, ?_⟩, hlo, hhi, hf⟩
    rintro rfl
    exact hout ⟨hlo, hhi⟩

theorem sysMunmap_ok (h : sysMunmap s pm addr length = .ok (0, s'))
    : pagesOf length = 0 ∧ s' = s
      ∨ pm ≠ 0 ∧ pagesOf length ≠ 0 ∧ addr % 4096 = 0 ∧ ∃ r t, findRegion s pm addr = some r
        ∧ cutTail s pm r ((addr + pagesOf length * 4096) % 2 ^ 64) = .ok t
        ∧ free t pm addr = .ok s' := by
  have hfault : ∀ (code : Nat) (t : State), code ≠ 0
      → (pure (code, t) : Except Fault (Nat × State)) ≠ .ok (0, s') := by
    intro code t hcode heq
    cases heq
    exact hcode rfl
  unfold sysMunmap at h
  split at h
  next => exact absurd h (hfault _ _ (by decide))
  next hpm =>
    split at h
    next hpages =>
      cases h
      exact .inl ⟨hpages, rfl⟩
    next hpages =>
      split at h
      next => exact absurd h (hfault _ _ (by decide))
      next haligned =>
        simp only at h
        split at h
        next => exact absurd h (hfault _ _ (by decide))
        next =>
          split at h
          next => exact absurd h (hfault _ _ (by decide))
          next r hfind =>
            split at h
            next => exact absurd h (hfault _ _ (by decide))
            next =>
              obtain ⟨t, hcut, h⟩ := bind_ok.mp h
              obtain ⟨t', hfree, h⟩ := bind_ok.mp h
              cases h
              exact .inr ⟨hpm, hpages, by omega, r, t, hfind, hcut, hfree⟩

theorem translate_none : map.translate addr = none ↔ (map.leaf addr).size = 0 := by
  simp [Pagemap.translate]

theorem translate_congr (h : map'.leaf addr = map.leaf addr)
    : map'.translate addr = map.translate addr := by
  simp only [Pagemap.translate, h]

theorem FreedRegion.unmaps (h : FreedRegion map map' r) (hlaid : Laid map head)
    (hr : r ∈ map.regions) (hrange : ∀ a, InRange addr length a ↔ r.start ≤ a ∧ a < r.stop)
    (hpages : ∀ p < 2 ^ 36, (map.leaf p).size ≠ 0
      → (InRange addr length (p * 4096) ↔ r.Sweeps map p))
    : Unmaps map map' addr length := by
  constructor
  . intro a f
    rw [h.covers hlaid hr a f, hrange a]
  . intro p hp hin
    rw [translate_none]
    by_cases hmapped : (map.leaf p).size = 0
    . by_cases hgone : r.Sweeps map p
      . rw [h.cleared.away p hp hgone]
      . rw [h.cleared.rest p hp hgone, hmapped]
    . rw [h.cleared.away p hp ((hpages p hp hmapped).mp hin)]
  . intro p hp hin
    by_cases hgone : r.Sweeps map p
    . have hmapped : (map.leaf p).size = 0 :=
        Classical.byContradiction fun hmapped => hin ((hpages p hp hmapped).mpr hgone)
      rw [translate_none.mpr hmapped, translate_none, h.cleared.away p hp hgone]
    . exact translate_congr (h.cleared.rest p hp hgone)

theorem Laid.exists_findIn {a : Nat} {f : BitVec 64} (h : Laid map head) (ha : a % 4096 = 0)
    (hcovers : Covers map.regions a f) : ∃ r, findIn map a = some r := by
  obtain ⟨x, hx, hlo, hhi, -⟩ := hcovers
  have hpage : a / 4096 * 4096 = a := by omega
  simp only [findIn, h.sentinel, h.tree, hpage]
  cases hle : vmaTreeFindLe map.regions a with
  | none => exact absurd (findLe_none hle x hx) (by omega)
  | some best =>
    obtain ⟨l1, l2, hrs, hbest, hgt⟩ := findLe_some h.layout hle
    have hmem : best ∈ map.regions := by simp [hrs]
    have hstop : a < best.stop := by
      rw [hrs, List.mem_append, List.mem_cons] at hx
      have hapart := h.layout.apart
      rw [hrs, List.pairwise_append] at hapart
      rcases hx with hx | hx | hx
      . have := hapart.2.2 x hx best (by simp)
        omega
      . exact hx ▸ hhi
      . have := hgt x hx
        omega
    refine ⟨best, ?_⟩
    simp only [(h.layout.ok best hmem).regionEnd_eq]
    rw [if_pos ⟨hbest, hstop⟩]

theorem Unmaps.congr {map1 : Pagemap} (hroot : map1.root = map.root)
    (hcovers : ∀ a f, Covers map1.regions a f ↔ Covers map.regions a f)
    (h : Unmaps map1 map' addr length)
    : Unmaps map map' addr length where
  regions := fun a f => by rw [h.regions a f, hcovers a f]
  inside := h.inside
  outside := fun p hp hin => by
    rw [h.outside p hp hin, translate_congr (Pagemap.leaf_of_root hroot p)]

theorem unmaps_nothing (hpages : pagesOf length = 0) : Unmaps map map addr length := by
  have hempty : ∀ a, ¬InRange addr length a := fun a ha => by
    simp only [InRange, hpages] at ha
    omega
  refine ⟨?_, ?_, fun _ _ _ => rfl⟩
  . intro a f
    simp [hempty a]
  . intro p _ hin
    exact absurd hin (hempty _)

end

instance (map : Pagemap) (head : Region) : Decidable (Laid map head) :=
  decidable_of_iff (map.vmaHead = some head
      ∧ ((∀ r ∈ map.regions, r.start % 4096 = 0 ∧ 0 < r.pageCount ∧ r.stop < 2 ^ 64)
        ∧ map.regions.Pairwise (fun a b => a.stop ≤ b.start)
        ∧ (head.node :: map.regions.map Region.node).Nodup)
      ∧ map.vmaTree = map.regions ∧ map.vmaCursor ∈ head.node :: map.regions.map Region.node)
    ⟨fun ⟨h1, ⟨h2, h3, h4⟩, h5, h6⟩ =>
      ⟨h1, ⟨fun r hr => ⟨(h2 r hr).1, (h2 r hr).2.1, (h2 r hr).2.2⟩, h3, h4⟩, h5, h6⟩,
    fun h => ⟨h.sentinel, ⟨fun r hr => ⟨(h.layout.ok r hr).aligned, (h.layout.ok r hr).pos,
      (h.layout.ok r hr).fits⟩, h.layout.apart, h.layout.nodes⟩, h.tree, h.cursor⟩⟩

instance (s : State) (pm : Nat) : Decidable (UserSpace s pm) :=
  decidable_of_iff ((∀ head ∈ (s.pagemap pm).vmaHead, Laid (s.pagemap pm) head)
      ∧ (∀ r ∈ (s.pagemap pm).regions, r.stop ≤ 2 ^ 47) ∧ FreshNode s pm)
    ⟨fun ⟨h1, h2, h3⟩ => ⟨h1, h2, h3⟩, fun h => ⟨h.laid, h.low, h.fresh⟩⟩

def userSpace : State :=
  match setStart newSpace 4096 0x1000000 >>= fun s => alloc s 4096 4 true 0 with
  | .ok (_, s) => s
  | .error _ => newSpace

end VMM
