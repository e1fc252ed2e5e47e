import Skyline.SLUB.Lemmas.Alloc

/-!
This module contains the proof that `Free` keeps the invariant.
-/

namespace SLUB

variable {s s' : State} {c p q obj i cpu : Nat} {out out' : List Nat} {x x' : Option Nat}

theorem filter_erase_of_not {α : Type} [DecidableEq α] (f : α → Bool) (a : α) (l : List α)
    (ha : f a = false)
    : (l.erase a).filter f = l.filter f := by
  induction l with
  | nil => rfl
  | cons b _ ih =>
    by_cases hb : b = a
    . subst hb
      simp [ha]
    . rw [List.erase_cons_tail (by simpa using hb), List.filter_cons, List.filter_cons, ih]

theorem push_cache (s : State) (c p obj cpu d : Nat)
    : (push s c p obj cpu).cache d
      = if d = c then { s.cache c with freeCount := (s.cache c).freeCount + 1 } else s.cache d := by
  simp [push]

theorem push_slab_of_ne (hq : q ≠ p) : (push s c p obj cpu).slab q = s.slab q := by
  simp [push, hq]

theorem push_slab (s : State) (c p obj cpu : Nat)
    : ∃ freelist foreign, (push s c p obj cpu).slab p
        = { s.slab p with
            inuse := (s.slab p).inuse - 1
            freelist := freelist
            foreignHead := foreign }
      ∧ (freelist ++ foreign).Perm (obj :: ((s.slab p).freelist ++ (s.slab p).foreignHead)) := by
  by_cases howner : (s.slab p).cpuOwner = some cpu
  . exact ⟨obj :: (s.slab p).freelist, (s.slab p).foreignHead, by simp [push, howner], .refl _⟩
  . refine ⟨(s.slab p).freelist, obj :: (s.slab p).foreignHead, ?_, List.perm_middle⟩
    simp [push, howner]

theorem push_liveOn_of_ne (hq : slubPageOf obj ≠ q)
    : (push s c p obj cpu).liveOn q = s.liveOn q := by
  exact filter_erase_of_not _ obj s.live (by simpa using hq)

theorem push_liveOn (cpu : Nat) (hobj : obj ∈ s.live)
    : (s.liveOn (slubPageOf obj)).Perm
        (obj :: (push s c p obj cpu).liveOn (slubPageOf obj)) := by
  have := (List.perm_cons_erase hobj).filter fun o => slubPageOf o = slubPageOf obj
  simpa [State.liveOn, push] using this

namespace Inv

theorem push (h : Inv [] none s) (hc : c ∈ s.caches) (hp : slubPageOf obj ∈ (s.cache c).pages)
    (hobj : obj ∈ s.live) (cpu : Nat)
    : Inv [] (some (slubPageOf obj)) (push s c (slubPageOf obj) obj cpu) := by
  have hok := h.slabOk c _ hc hp
  have hcok := h.cacheOk c hc
  have hk : (s.cache c).SameBut (slubPageOf obj)
      ((SLUB.push s c (slubPageOf obj) obj cpu).cache c) := by
    rw [push_cache, if_pos rfl]
    exact ⟨rfl, rfl, rfl, fun _ _ => .rfl, fun _ _ _ => .rfl⟩
  obtain ⟨freelist, foreign, hslab, hperm⟩ := push_slab s c (slubPageOf obj) obj cpu
  have hlive := push_liveOn (c := c) (p := slubPageOf obj) cpu hobj
  refine h.update hc hp rfl ?_ (fun q hq => push_slab_of_ne hq)
    (fun q hq => push_liveOn_of_ne hq.symm) (fun q hq => push_liveOn_of_ne hq.symm) ?_
    rfl rfl rfl hk ?_ ?_ ?_ ?_ ?_ ?_
  . intro d hd
    rw [push_cache, if_neg hd]
  . rintro obj' (hobj' | hobj')
    . cases hobj'
    . exact .inr (.inl (List.mem_of_mem_erase hobj'))
  . rw [push_cache, if_pos rfl]
  . rw [push_cache, if_pos rfl]
    exact hcok.listed_nodup
  . rw [push_cache, if_pos rfl]
    exact hcok.nrPartial
  . rw [push_cache, if_pos rfl]
    exact fun i hi => (hcok.active i _ hi).2
  . intro q _ hxq
    cases hxq
  . refine hok.content hk ?_ ?_ ?_ ?_ ?_ ?_ ?_ ?_ ?_ ?_
    case refine_8 =>
      rw [hslab, State.outside_nil, State.outside_nil]
      refine (hperm.append_right _).trans ?_
      exact List.perm_middle.symm.trans (hlive.symm.append_left _)
    case refine_9 =>
      have hlen := hlive.length_eq
      rw [hslab]
      simp only [hok.inuse, hlen, List.length_cons]
      omega
    case refine_10 => exact fun _ hx => absurd rfl hx
    all_goals simp [push_cache, hslab]

theorem settle (h : Inv [] (some p) s)
    (hp : ∀ c ∈ s.caches, p ∈ (s.cache c).pages → (s.slab p).cpuOwner = none → s.liveOn p ≠ [])
    : Inv [] none s := by
  refine ⟨h.caches_ne_zero, h.caches_nodup, h.cacheOk, ?_, h.outside, h.held, h.counts, h.found⟩
  intro c q hc hq
  have hok := h.slabOk c q hc hq
  refine ⟨hok.magic, hok.cache, hok.aligned, hok.slots, hok.inuse, hok.objects, hok.onPartial,
    hok.owner, hok.listed, ?_⟩
  intro howner _
  by_cases hqp : q = p
  . subst hqp
    exact hp c hc hq howner
  . exact hok.unowned howner (by simp [Ne.symm hqp])

theorem unlink (h : Inv out x s) (hc : c ∈ s.caches) (hp : p ∈ (s.cache c).partialList)
    : Inv out x (unlink s c p) := by
  have hcok := h.cacheOk c hc
  have hok := h.slabOk c p hc (hcok.listed p hp)
  simp only [SLUB.unlink, if_pos hp]
  refine h.move hc (hcok.listed p hp)
    { s.cache c with
      partialList := (s.cache c).partialList.erase p
      nrPartial := (s.cache c).nrPartial - 1 }
    false (s.slab p).cpuOwner ⟨rfl, rfl, rfl, ?_, fun _ _ _ => .rfl⟩ rfl
    (hcok.listed_nodup.erase p) ?_ (fun i hi => (hcok.active i p hi).2) (fun _ _ => id) ?_ hok.owner
    (fun _ => hok.listed hp) hok.unowned
  . intro q hq
    exact List.mem_erase_of_ne hq
  . simp [hcok.nrPartial, List.length_erase_of_mem hp]
  . simp [hcok.listed_nodup.mem_erase_iff]

end Inv

theorem vmmFree_cache (s : State) (c p d : Nat)
    : (vmmFree s c p).cache d
      = if d = c then { s.cache c with pages := (s.cache c).pages.erase p } else s.cache d := by
  simp [vmmFree]

theorem vmmFree_slab_of_ne (hq : q ≠ p) : (vmmFree s c p).slab q = s.slab q := by
  simp [vmmFree, hq]

theorem vmmFree_returned (s : State) (c p q : Nat)
    : (vmmFree s c p).returned q = s.returned q + if q = p then 1 else 0 := by
  simp only [vmmFree, State.setCache_returned, State.setSlab_returned, Function.update_apply]
  split
  . next hq => rw [hq]
  . rfl

namespace Inv

section

variable (h : Inv [] (some p) s) (hc : c ∈ s.caches) (hp : p ∈ (s.cache c).pages)
  (howner : (s.slab p).cpuOwner = none)
include h hc hp howner

theorem vmmFree (hlisted : p ∉ (s.cache c).partialList)
    (hlive : s.liveOn p = [])
    : Inv [] none (vmmFree s c p) := by
  have hok := h.slabOk c p hc hp
  have hnodup := (h.cacheOk c hc).pages_nodup
  refine Repaged.inv h ⟨rfl, vmmFree_cache s c p, fun q hq => vmmFree_slab_of_ne hq, rfl, rfl,
    fun q hq => ⟨rfl, by rw [vmmFree_returned, if_neg hq]; rfl⟩,
      fun q hq => List.mem_erase_of_ne hq,
    hnodup.erase p, fun d hd hpd => h.eq_of_mem_pages hc hp hd hpd,
    fun hin => absurd rfl (hnodup.mem_erase_iff.1 hin).1, fun _ => ⟨⟨hlisted, ?_⟩, hlive, ?_⟩⟩ hc ?_
  . intro i hi
    rw [← hok.owner i, howner] at hi
    cases hi
  . rw [vmmFree_returned, if_pos rfl]
    exact h.held c p hc hp
  . intro q hq hx
    cases hx
    exact absurd rfl hq

theorem reclaimSlab (hinuse : (s.slab p).inuse = 0)
    : Inv [] none (reclaimSlab s c p) := by
  have hok := h.slabOk c p hc hp
  have hlive : s.liveOn p = [] := by
    rw [hok.inuse] at hinuse
    exact List.length_eq_zero_iff.mp hinuse
  unfold SLUB.reclaimSlab
  rw [if_neg (by simp [hok.magic]), if_neg (by simp [howner, hinuse])]
  split
  . next hon =>
    have hlisted := hok.onPartial.mp hon
    have hunlink := h.unlink hc hlisted
    have hnodup := (h.cacheOk c hc).listed_nodup
    apply hunlink.vmmFree (c := c) hc
    . simpa [SLUB.unlink, hlisted] using hp
    . simpa [SLUB.unlink] using howner
    . simp [SLUB.unlink, hlisted, hnodup.mem_erase_iff]
    . exact hlive
  . next hon => exact h.vmmFree hc hp howner (fun hin => hon (hok.onPartial.mpr hin)) hlive

end

theorem linkPartialLocked (h : Inv [] none s) (hc : c ∈ s.caches) (hp : p ∈ (s.cache c).pages)
    (hinuse : (s.slab p).inuse ≠ 0)
    : Inv [] none (linkPartialLocked s c p) := by
  have hok := h.slabOk c p hc hp
  unfold SLUB.linkPartialLocked
  rw [if_neg (by simp [hok.magic])]
  split
  . next hlink =>
    apply h.link hc hp hlink.1
    rw [← hok.onPartial, hlink.2.1]
    simp
  . rw [if_neg (by simp [hinuse])]
    exact h

theorem push_settle (h : Inv [] none s) (hc : c ∈ s.caches)
    (hp : slubPageOf obj ∈ (s.cache c).pages) (hobj : obj ∈ s.live) (cpu : Nat)
    (huse : (s.slab (slubPageOf obj)).cpuOwner = none → (s.slab (slubPageOf obj)).inuse - 1 ≠ 0)
    : Inv [] none (SLUB.push s c (slubPageOf obj) obj cpu) := by
  have hpush := h.push hc hp hobj cpu
  obtain ⟨freelist, foreign, hslab, _⟩ := push_slab s c (slubPageOf obj) obj cpu
  apply hpush.settle
  intro d hd hpd howner hnil
  have hinuse := (hpush.slabOk d _ hd hpd).inuse
  rw [hslab] at howner hinuse
  rw [hnil] at hinuse
  exact huse howner hinuse

theorem free (h : Inv [] none s) (hobj : obj ∈ s.live) (hfree : free s c obj cpu = some s')
    : Inv [] none s' := by
  unfold SLUB.free at hfree
  split at hfree
  next =>
    cases hfree
    exact h
  next =>
    simp only at hfree
    obtain ⟨d, hd, hp⟩ := h.outside obj (.inr hobj)
    have hok := h.slabOk d _ hd hp
    split at hfree
    next => cases hfree
    next hcache =>
      -- the page belongs to the cache the caller names
      have hcd : d = c := by
        rw [hok.cache] at hcache
        simp only [not_or, not_not] at hcache
        exact hcache.2
      subst hcd
      have hpush := h.push hd hp hobj cpu
      have hsettle := h.push_settle hd hp hobj cpu
      obtain ⟨freelist, foreign, hslab, _⟩ := push_slab s d (slubPageOf obj) obj cpu
      have hpage : slubPageOf obj ∈ ((SLUB.push s d (slubPageOf obj) obj cpu).cache d).pages := by
        simpa [push_cache] using hp
      split at hfree
      next => cases hfree
      next hinuse =>
        split at hfree
        next hlast =>
          split at hfree
          next howner =>
            cases hfree
            apply hpush.reclaimSlab hd hpage
            . rw [hslab, howner]
            . rw [hslab]
              exact hlast
          next howner =>
            cases hfree
            exact hsettle fun hnone => absurd hnone howner
        next hlast =>
          have hinv := hsettle fun _ => hlast
          split at hfree
          next =>
            split at hfree
            next =>
              cases hfree
              apply hinv.linkPartialLocked hd hpage
              rw [hslab]
              exact hlast
            next =>
              cases hfree
              exact hinv
          next =>
            cases hfree
            exact hinv

end Inv

end SLUB
