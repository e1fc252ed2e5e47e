import Skyline.SLUB.Lemmas.Free

/-!
This module contains the proof that `Create` and `Destroy` keep the invariant.
-/

namespace SLUB

open Function

variable {s s' s0 : State} {c p q i : Nat}

structure Dismantled (c : Nat) (s0 s : State) : Prop where
  caches : s.caches = s0.caches
  cache (d : Nat) : d ≠ c → s.cache d = s0.cache d
  slab (q : Nat) : q ∉ (s0.cache c).pages → s.slab q = s0.slab q
  taken : s.taken = s0.taken
  lost : s.lost = s0.lost
  sub (q : Nat) : q ∈ (s.cache c).pages → q ∈ (s0.cache c).pages
  nodup : (s.cache c).pages.Nodup
  returned (q : Nat) : s.returned q
    = s0.returned q + if q ∈ (s0.cache c).pages ∧ q ∉ (s.cache c).pages then 1 else 0

namespace Dismantled

theorem vmmFree (h : Dismantled c s0 s) (hp : p ∈ (s.cache c).pages)
    : Dismantled c s0 (vmmFree s c p) where
  __ := h
  cache d hd := by rw [vmmFree_cache, if_neg hd, h.cache d hd]
  slab q hq := by
    have hqp : q ≠ p := by
      rintro rfl
      exact hq (h.sub q hp)
    rw [vmmFree_slab_of_ne hqp, h.slab q hq]
  sub q hq := by
    simp only [vmmFree_cache, if_pos] at hq
    exact h.sub q (List.mem_of_mem_erase hq)
  nodup := by
    simp only [vmmFree_cache, if_pos]
    exact h.nodup.erase p
  returned q := by
    simp only [vmmFree_returned, h.returned q, vmmFree_cache, if_pos, h.nodup.mem_erase_iff]
    by_cases hqp : q = p
    . subst hqp
      simp [hp, h.sub q hp]
    . simp [hqp]

theorem setCache (h : Dismantled c s0 s) (k : Cache) (hk : k.pages = (s.cache c).pages)
    : Dismantled c s0 (s.setCache c k) where
  __ := h
  cache d hd := by
    rw [State.setCache_cache, if_neg hd, h.cache d hd]
  sub q hq := by
    simp only [State.setCache_cache, if_pos, hk] at hq
    exact h.sub q hq
  nodup := by
    simp only [State.setCache_cache, if_pos, hk]
    exact h.nodup
  returned q := by
    simp only [State.setCache_cache, if_pos, hk]
    exact h.returned q

theorem foldl_vmmFree (h : Dismantled c s0 s) (ps : List Nat) (hnodup : ps.Nodup)
    (hps : ∀ p ∈ ps, p ∈ (s.cache c).pages)
    : Dismantled c s0 (ps.foldl (fun s p => SLUB.vmmFree s c p) s)
      ∧ ((ps.foldl (fun s p => SLUB.vmmFree s c p) s).cache c).cpuActive = (s.cache c).cpuActive
      ∧ ∀ q, q ∈ ((ps.foldl (fun s p => SLUB.vmmFree s c p) s).cache c).pages
        ↔ q ∈ (s.cache c).pages ∧ q ∉ ps := by
  induction ps generalizing s with
  | nil => exact ⟨h, rfl, by simp⟩
  | cons p ps ih =>
    rw [List.nodup_cons] at hnodup
    have hp := hps p List.mem_cons_self
    have hmem : ∀ q, q ∈ ((SLUB.vmmFree s c p).cache c).pages ↔ q ≠ p ∧ q ∈ (s.cache c).pages := by
      intro q
      simp only [vmmFree_cache, if_pos]
      exact h.nodup.mem_erase_iff
    have hrest : ∀ q ∈ ps, q ∈ ((SLUB.vmmFree s c p).cache c).pages := by
      intro q hq
      rw [hmem]
      refine ⟨?_, hps q (List.mem_cons_of_mem p hq)⟩
      rintro rfl
      exact hnodup.1 hq
    obtain ⟨hd, hactive, hpages⟩ := ih (h.vmmFree hp) hnodup.2 hrest
    refine ⟨hd, ?_, ?_⟩
    . rw [List.foldl_cons, hactive]
      simp [vmmFree_cache]
    . intro q
      rw [List.foldl_cons, hpages, hmem, List.mem_cons, not_or]
      tauto

structure Active (s : State) (c : Nat) : Prop where
  mem (i p : Nat) : (s.cache c).cpuActive i = some p → p ∈ (s.cache c).pages
  inj (i j p : Nat) : (s.cache c).cpuActive i = some p → (s.cache c).cpuActive j = some p → i = j

theorem dropActive_cache (s : State) (c i : Nat)
    : (dropActive c s i).cache c
      = { s.cache c with
          cpuActive := update (s.cache c).cpuActive i none
          pages := match (s.cache c).cpuActive i with
            | none => (s.cache c).pages
            | some p => (s.cache c).pages.erase p } := by
  unfold dropActive
  split
  . next hnone =>
    simp only [hnone]
    rw [← hnone, update_eq_self]
  . next p hsome => simp [vmmFree_cache, hsome]

theorem dropActive (h : Dismantled c s0 s) (hactive : Active s c) (i : Nat)
    : Dismantled c s0 (dropActive c s i) ∧ Active (dropActive c s i) c := by
  have hcache := dropActive_cache s c i
  constructor
  . unfold SLUB.dropActive
    split
    . exact h
    . next p hsome =>
      exact (h.vmmFree (hactive.mem i p hsome)).setCache _ rfl
  . constructor
    . intro j p hj
      simp only [hcache] at hj ⊢
      by_cases hji : j = i
      . simp [hji] at hj
      . rw [update_of_ne hji] at hj
        split
        . exact hactive.mem j p hj
        . next q hq =>
          rw [h.nodup.mem_erase_iff]
          refine ⟨?_, hactive.mem j p hj⟩
          rintro rfl
          exact hji (hactive.inj j i p hj hq)
    . intro j k p hj hk
      simp only [hcache] at hj hk
      by_cases hji : j = i
      . simp [hji] at hj
      . by_cases hki : k = i
        . simp [hki] at hk
        . rw [update_of_ne hji] at hj
          rw [update_of_ne hki] at hk
          exact hactive.inj j k p hj hk

theorem foldl_dropActive (h : Dismantled c s0 s) (hactive : Active s c) (is : List Nat)
    : Dismantled c s0 (is.foldl (SLUB.dropActive c) s)
      ∧ ∀ q, q ∈ ((is.foldl (SLUB.dropActive c) s).cache c).pages → q ∈ (s.cache c).pages
        ∧ ∀ i ∈ is, (s.cache c).cpuActive i ≠ some q := by
  induction is generalizing s with
  | nil => exact ⟨h, by simp⟩
  | cons i _ ih =>
    obtain ⟨hd, ha⟩ := h.dropActive hactive i
    obtain ⟨hdone, hleft⟩ := ih hd ha
    refine ⟨hdone, ?_⟩
    intro q hq
    obtain ⟨hmem, hne⟩ := hleft q hq
    simp only [dropActive_cache] at hmem hne
    refine ⟨?_, ?_⟩
    . split at hmem
      next => exact hmem
      next => exact List.mem_of_mem_erase hmem
    . intro j hj hjq
      by_cases hji : j = i
      . subst hji
        rw [hjq] at hmem
        simp [h.nodup.mem_erase_iff] at hmem
      . rw [List.mem_cons] at hj
        have := hne j (hj.resolve_left hji)
        rw [update_of_ne hji] at this
        exact this hjq

theorem refl (h : (s.cache c).pages.Nodup) : Dismantled c s s where
  caches := rfl
  cache _ _ := rfl
  slab _ _ := rfl
  taken := rfl
  lost := rfl
  sub _ := id
  nodup := h
  returned q := by
    rw [if_neg]
    . rfl
    . exact fun hq => hq.2 hq.1

end Dismantled

namespace Inv

section

variable (h : Inv [] none s) (hc : c ∈ s.caches)
include h hc

theorem dropPartial
    : Dismantled c s (dropPartial s c) ∧ Dismantled.Active (SLUB.dropPartial s c) c
      ∧ ((SLUB.dropPartial s c).cache c).cpuActive = (s.cache c).cpuActive := by
  have hcok := h.cacheOk c hc
  obtain ⟨hloop, hactive, hpages⟩ := (Dismantled.refl hcok.pages_nodup).foldl_vmmFree
    (s.cache c).partialList hcok.listed_nodup hcok.listed
  have hcache : ((SLUB.dropPartial s c).cache c).cpuActive = (s.cache c).cpuActive := by
    simp [SLUB.dropPartial, hactive]
  refine ⟨hloop.setCache _ rfl, ⟨?_, ?_⟩, hcache⟩
  . intro i p hi
    rw [hcache] at hi
    have hp := (hcok.active i p hi).1
    simp only [SLUB.dropPartial, State.setCache_cache, if_pos, hpages]
    refine ⟨hp, fun hin => ?_⟩
    have howner := (h.slabOk c p hc hp).listed hin
    rw [((h.slabOk c p hc hp).owner i).mpr hi] at howner
    cases howner
  . intro i j p hi hj
    rw [hcache] at hi hj
    have hok := h.slabOk c p hc (hcok.active i p hi).1
    rw [← hok.owner] at hi hj
    simpa [hi] using hj

theorem dismantled
    : ∃ t, destroy s c = { t with
          caches := t.caches.erase c
          live := s.live.filter fun obj => slubPageOf obj ∉ (s.cache c).pages
          lost := (t.cache c).pages ++ t.lost }
        ∧ Dismantled c s t ∧ ∀ q ∈ (t.cache c).pages, (s.slab q).cpuOwner = none := by
  have hzero : c ≠ 0 := fun h0 => h.caches_ne_zero (h0 ▸ hc)
  obtain ⟨hdrop, hactive, hcache⟩ := h.dropPartial hc
  obtain ⟨hdone, hleft⟩ := hdrop.foldl_dropActive hactive (List.range maxCpu)
  refine ⟨_, ?_, hdone, ?_⟩
  . unfold SLUB.destroy
    rw [if_neg hzero]
  . intro q hq
    obtain ⟨hmem, hne⟩ := hleft q hq
    have hq := hdrop.sub q hmem
    cases howner : (s.slab q).cpuOwner with
    | none => rfl
    | some i =>
      have hi := ((h.slabOk c q hc hq).owner i).mp howner
      rw [hcache] at hne
      exact absurd hi (hne i (List.mem_range.mpr ((h.cacheOk c hc).active i q hi).2))

theorem destroy
    : Inv [] none (destroy s c)
      ∧ ∀ p ∈ (SLUB.destroy s c).lost, p ∈ s.lost ∨ p ∈ (s.cache c).pages ∧ s.liveOn p ≠ [] := by
  obtain ⟨t, heq, hdone, hleft⟩ := h.dismantled hc
  rw [heq]
  have hcaches : ∀ d, d ∈ t.caches.erase c → d ≠ c ∧ d ∈ s.caches := by
    intro d hd
    rw [hdone.caches, h.caches_nodup.mem_erase_iff] at hd
    exact hd
  have haway : ∀ d q, d ∈ t.caches.erase c
      → q ∈ (t.cache d).pages → q ∈ (s.cache d).pages ∧ q ∉ (s.cache c).pages := by
    intro d q hd hq
    obtain ⟨hdc, hd⟩ := hcaches d hd
    rw [hdone.cache d hdc] at hq
    exact ⟨hq, fun hqc => hdc (h.eq_of_mem_pages hc hqc hd hq)⟩
  constructor
  . constructor
    case caches_ne_zero => exact fun h0 => h.caches_ne_zero (hcaches 0 h0).2
    case caches_nodup =>
      simp only [hdone.caches]
      exact h.caches_nodup.erase c
    case cacheOk =>
      intro d hd
      obtain ⟨hdc, hd⟩ := hcaches d hd
      exact (h.cacheOk d hd).congr (hdone.cache d hdc)
    case slabOk =>
      intro d q hd hq
      obtain ⟨hq, hqc⟩ := haway d q hd hq
      obtain ⟨hdc, hd⟩ := hcaches d hd
      have hlive : (s.live.filter fun obj => slubPageOf obj ∉ (s.cache c).pages).filter
          (fun obj => slubPageOf obj = q) = s.live.filter fun obj => slubPageOf obj = q := by
        rw [List.filter_filter]
        apply List.filter_congr
        intro obj _
        by_cases hobj : slubPageOf obj = q
        . simp [hobj, hqc]
        . simp [hobj]
      refine (h.slabOk d q hd hq).congr (p := q + 1) (by omega) ?_ ?_ ?_ ?_ id
      . simp only [hdone.cache d hdc]
        exact .refl
      . exact hdone.slab q hqc
      . exact hlive
      . exact hlive
    case outside =>
      rintro obj (hobj | hobj)
      . cases hobj
      . simp only [List.mem_filter, decide_eq_true_eq] at hobj
        obtain ⟨d, hd, hmem⟩ := h.outside obj (.inr hobj.1)
        have hdc : d ≠ c := by
          rintro rfl
          exact hobj.2 hmem
        refine ⟨d, ?_, ?_⟩
        . simp only [hdone.caches]
          exact h.caches_nodup.mem_erase_iff.mpr ⟨hdc, hd⟩
        . simpa [hdone.cache d hdc] using hmem
    case held =>
      intro d q hd hq
      obtain ⟨hq, hqc⟩ := haway d q hd hq
      simp only [hdone.taken, hdone.returned q, if_neg (fun hand => hqc hand.1 : ¬(_ ∧ _))]
      exact h.held d q (hcaches d hd).2 hq
    case counts =>
      intro q
      have := h.counts q
      simp only [hdone.taken, hdone.returned q]
      split
      . next hq =>
        have := h.held c q hc hq.1
        omega
      . exact this
    case found =>
      intro q hq
      simp only [hdone.taken, hdone.returned q] at hq
      simp only [List.mem_append, hdone.lost]
      by_cases hqc : q ∈ (s.cache c).pages
      . have := h.held c q hc hqc
        by_cases hqt : q ∈ (t.cache c).pages
        . exact .inr (.inl hqt)
        . simp only [hqc, hqt, not_false_eq_true, and_self, if_true] at hq
          omega
      . simp only [hqc, false_and, if_false] at hq
        rcases h.found q hq with ⟨d, hd, hmem⟩ | hlost
        . have hdc : d ≠ c := by
            rintro rfl
            exact hqc hmem
          refine .inl ⟨d, ?_, ?_⟩
          . rw [hdone.caches]
            exact h.caches_nodup.mem_erase_iff.mpr ⟨hdc, hd⟩
          . rw [hdone.cache d hdc]
            exact hmem
        . exact .inr (.inr hlost)
  . intro p hp
    simp only [List.mem_append, hdone.lost] at hp
    rcases hp with hp | hp
    . have hmem := hdone.sub p hp
      exact .inr ⟨hmem, (h.slabOk c p hc hmem).unowned (hleft p hp) (by simp)⟩
    . exact .inl hp

theorem destroy_returned
    : c ∉ (SLUB.destroy s c).caches
      ∧ (∀ p ∈ (s.cache c).pages, s.liveOn p = []
        → (SLUB.destroy s c).returned p = s.returned p + 1)
      ∧ ∀ p, p ∉ (s.cache c).pages → (SLUB.destroy s c).returned p = s.returned p := by
  obtain ⟨t, heq, hdone, hleft⟩ := h.dismantled hc
  rw [heq]
  refine ⟨?_, fun p hp hlive => ?_, fun p hp => ?_⟩
  . simp [hdone.caches, h.caches_nodup.mem_erase_iff]
  . have hgone : p ∉ (t.cache c).pages := fun hin =>
      (h.slabOk c p hc hp).unowned (hleft p hin) (by simp) hlive
    simp [hdone.returned p, hp, hgone]
  . simp [hdone.returned p, hp]

end

theorem newCache (h : Inv [] none s) (hzero : c ≠ 0) (hc : c ∉ s.caches) {os off n : Nat}
    (hfits : Cache.Fits ⟨os, off, n, [], 0, fun _ => none, 0, 0, 0, []⟩)
    : Inv [] none { s.setCache c ⟨os, off, n, [], 0, fun _ => none, 0, 0, 0, []⟩ with
        caches := c :: s.caches } := by
  have hcache : ∀ d ∈ s.caches,
      (s.setCache c ⟨os, off, n, [], 0, fun _ => none, 0, 0, 0, []⟩).cache d = s.cache d := by
    intro d hd
    rw [State.setCache_cache, if_neg]
    rintro rfl
    exact hc hd
  constructor
  case caches_ne_zero => simp [hzero.symm, h.caches_ne_zero]
  case caches_nodup => exact h.caches_nodup.cons hc
  case cacheOk =>
    intro d hd
    rw [List.mem_cons] at hd
    rcases hd with rfl | hd
    . constructor
      all_goals simp
      exact hfits
    . exact (h.cacheOk d hd).congr (hcache d hd)
  case slabOk =>
    intro d q hd hq
    rw [List.mem_cons] at hd
    rcases hd with rfl | hd
    . simp at hq
    . simp only [hcache d hd] at hq
      refine (h.slabOk d q hd hq).congr (p := q + 1) (by omega) ?_ rfl rfl rfl id
      simp only [hcache d hd]
      exact .refl
  case outside =>
    intro obj hobj
    obtain ⟨d, hd, hmem⟩ := h.outside obj hobj
    exact ⟨d, List.mem_cons_of_mem c hd, by simpa only [hcache d hd] using hmem⟩
  case held =>
    intro d q hd hq
    rw [List.mem_cons] at hd
    rcases hd with rfl | hd
    . simp at hq
    . simp only [hcache d hd] at hq
      exact h.held d q hd hq
  case counts => exact h.counts
  case found =>
    intro q hq
    refine (h.found q hq).imp_left ?_
    rintro ⟨d, hd, hmem⟩
    exact ⟨d, List.mem_cons_of_mem c hd, by simpa only [hcache d hd] using hmem⟩

theorem create (h : Inv [] none s) {objSize align : UInt64} {addr r : Option Nat}
    (haddr : ∀ c ∈ addr, c ≠ 0 ∧ c ∉ s.caches)
    (hcreate : create s objSize align addr = some (r, s'))
    : Inv [] none s' := by
  unfold SLUB.create at hcreate
  split at hcreate
  next =>
    cases hcreate
    exact h
  next =>
    split at hcreate
    next =>
      cases hcreate
      exact h
    next =>
      simp only at hcreate
      generalize (slabAlignUp objSize _).toNat % 2 ^ 32 = os at hcreate
      generalize (slabAlignUp sizeofSlab _).toNat % 2 ^ 32 = off at hcreate
      split at hcreate
      next =>
        cases hcreate
        exact h
      next hroom =>
        split at hcreate
        next =>
          cases hcreate
          exact h
        next c =>
          split at hcreate
          next => cases hcreate
          next hos =>
            cases hcreate
            obtain ⟨hzero, hc⟩ := haddr c rfl
            exact h.newCache hzero hc ⟨Nat.pos_of_ne_zero hos, Nat.not_lt.mp hroom, rfl⟩

end Inv

end SLUB
