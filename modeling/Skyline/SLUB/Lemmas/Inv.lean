import Skyline.SLUB.Impl

/-!
This module contains the invariant of the SLUB object caches and what each part of an operation does
to it.
-/

namespace SLUB

section

variable {k : Cache} {p q obj : Nat}

structure Cache.Fits (k : Cache) : Prop where
  pos : 0 < k.objSize
  room : k.areaOff + k.objSize ≤ pageSize
  objsPerSlab : k.objsPerSlab = (pageSize - k.areaOff) / k.objSize

theorem Cache.Fits.objsPerSlab_pos (h : k.Fits) : 0 < k.objsPerSlab := by
  rw [h.objsPerSlab]
  exact Nat.div_pos (by have := h.room; omega) h.pos

theorem Cache.Fits.mul_le (h : k.Fits) : k.areaOff + k.objsPerSlab * k.objSize ≤ pageSize := by
  have := Nat.div_mul_le_self (pageSize - k.areaOff) k.objSize
  have := h.room
  rw [h.objsPerSlab]
  omega

theorem slubPageOf_add (hp : p % pageSize = 0) {x : Nat} (hx : x < pageSize)
    : slubPageOf (p + x) = p := by
  unfold slubPageOf
  rw [Nat.add_mod, hp, Nat.zero_add, Nat.mod_mod, Nat.mod_eq_of_lt hx]
  omega

namespace Cache

theorem mem_slots
    : obj ∈ k.slots p ↔ ∃ i < k.objsPerSlab, p + (k.areaOff + i * k.objSize) = obj := by
  simp [slots]

@[simp]
theorem length_slots : (k.slots p).length = k.objsPerSlab := by
  simp [slots]

theorem Fits.slubPageOf_slot (h : k.Fits) (hp : p % pageSize = 0) (hobj : obj ∈ k.slots p)
    : slubPageOf obj = p := by
  rw [mem_slots] at hobj
  obtain ⟨i, hi, rfl⟩ := hobj
  apply slubPageOf_add hp
  have hle : (i + 1) * k.objSize ≤ k.objsPerSlab * k.objSize := Nat.mul_le_mul_right _ hi
  have := h.mul_le
  have := h.pos
  rw [Nat.succ_mul] at hle
  omega

theorem Fits.nodup_slots (h : k.Fits) (p : Nat) : (k.slots p).Nodup := by
  apply List.Nodup.map ?_ List.nodup_range
  intro i j hij
  have : i * k.objSize = j * k.objSize := by
    simp only at hij
    omega
  exact Nat.eq_of_mul_eq_mul_right h.pos this

end Cache

theorem carve_eq (k : Cache) (base n fuel off : Nat) (head : List Nat) (m : Nat)
    (hfuel : n < fuel) (hroom : off + n * k.objSize ≤ pageSize)
    (hfull : pageSize < off + (n + 1) * k.objSize)
    : carve k base fuel off (head, m)
      = (((List.range n).map fun i => base + (off + i * k.objSize)).reverse ++ head, m + n) := by
  induction n generalizing fuel off head m with
  | zero =>
    obtain ⟨fuel, rfl⟩ : ∃ f, fuel = f + 1 := ⟨fuel - 1, by omega⟩
    unfold carve
    rw [if_neg (by omega)]
    simp
  | succ n ih =>
    obtain ⟨fuel, rfl⟩ : ∃ f, fuel = f + 1 := ⟨fuel - 1, by omega⟩
    have hmul : (n + 1) * k.objSize = n * k.objSize + k.objSize := Nat.succ_mul n k.objSize
    have hmul' : (n + 1 + 1) * k.objSize = (n + 1) * k.objSize + k.objSize :=
      Nat.succ_mul (n + 1) k.objSize
    unfold carve
    rw [if_pos (by omega), ih fuel (off + k.objSize) _ _ (by omega) (by omega) (by omega)]
    rw [List.range_succ_eq_map, List.map_cons, List.map_map, List.reverse_cons]
    have hshift : ((fun i => base + (off + i * k.objSize)) ∘ Nat.succ)
        = fun i => base + (off + k.objSize + i * k.objSize) := by
      funext i
      simp only [Function.comp, Nat.succ_mul]
      omega
    rw [hshift]
    simp [Nat.add_comm, Nat.add_left_comm]

theorem Cache.Fits.carve_slots (h : k.Fits) (p : Nat)
    : carve k p (pageSize + 1) k.areaOff ([], 0) = ((k.slots p).reverse, k.objsPerSlab) := by
  have hlt : pageSize - k.areaOff < (k.objsPerSlab + 1) * k.objSize := by
    rw [h.objsPerSlab, Nat.succ_mul]
    exact Nat.lt_div_mul_add h.pos
  have hle : k.objsPerSlab * 1 ≤ k.objsPerSlab * k.objSize := Nat.mul_le_mul_left _ h.pos
  have hfuel : k.objsPerSlab < pageSize + 1 := by
    have := h.mul_le
    omega
  rw [carve_eq k p k.objsPerSlab (pageSize + 1) k.areaOff [] 0 hfuel h.mul_le (by omega)]
  simp [slots]

end

variable {s s' : State} {c p q obj i : Nat} {out out' : List Nat} {x x' : Option Nat}

def State.outside (s : State) (out : List Nat) (p : Nat) : List Nat :=
  (out.filter fun obj => slubPageOf obj = p) ++ s.liveOn p

structure SlabOk (out : List Nat) (x : Option Nat) (s : State) (c p : Nat) : Prop where
  magic : (s.slab p).magic = slubPageMagic
  cache : (s.slab p).cache = c
  aligned : p % pageSize = 0
  slots : ((s.slab p).freelist ++ (s.slab p).foreignHead ++ s.outside out p).Perm
    ((s.cache c).slots p)
  inuse : (s.slab p).inuse = (s.liveOn p).length
  objects : (s.slab p).objects = (s.cache c).objsPerSlab
  onPartial : (s.slab p).onPartial = true ↔ p ∈ (s.cache c).partialList
  owner (i : Nat) : (s.slab p).cpuOwner = some i ↔ (s.cache c).cpuActive i = some p
  listed : p ∈ (s.cache c).partialList → (s.slab p).cpuOwner = none
  unowned : (s.slab p).cpuOwner = none → x ≠ some p → s.outside out p ≠ []

structure CacheOk (s : State) (c : Nat) : Prop where
  fits : (s.cache c).Fits
  active (i p : Nat) : (s.cache c).cpuActive i = some p → p ∈ (s.cache c).pages ∧ i < maxCpu
  listed (p : Nat) : p ∈ (s.cache c).partialList → p ∈ (s.cache c).pages
  listed_nodup : (s.cache c).partialList.Nodup
  nrPartial : (s.cache c).nrPartial = (s.cache c).partialList.length
  pages_nodup : (s.cache c).pages.Nodup

structure Inv (out : List Nat) (x : Option Nat) (s : State) : Prop where
  caches_ne_zero : 0 ∉ s.caches
  caches_nodup : s.caches.Nodup
  cacheOk (c : Nat) : c ∈ s.caches → CacheOk s c
  slabOk (c p : Nat) : c ∈ s.caches → p ∈ (s.cache c).pages → SlabOk out x s c p
  outside (obj : Nat) : obj ∈ out ∨ obj ∈ s.live
    → ∃ c ∈ s.caches, slubPageOf obj ∈ (s.cache c).pages
  held (c p : Nat) : c ∈ s.caches → p ∈ (s.cache c).pages → s.taken p = s.returned p + 1
  counts (p : Nat) : s.returned p ≤ s.taken p ∧ s.taken p ≤ s.returned p + 1
  found (p : Nat) : s.taken p = s.returned p + 1
    → (∃ c ∈ s.caches, p ∈ (s.cache c).pages) ∨ p ∈ s.lost

structure Cache.SameBut (p : Nat) (k k' : Cache) : Prop where
  objSize : k'.objSize = k.objSize
  areaOff : k'.areaOff = k.areaOff
  objsPerSlab : k'.objsPerSlab = k.objsPerSlab
  listed (q : Nat) : q ≠ p → (q ∈ k'.partialList ↔ q ∈ k.partialList)
  active (i q : Nat) : q ≠ p → (k'.cpuActive i = some q ↔ k.cpuActive i = some q)

namespace Cache.SameBut

variable {k k' : Cache}

theorem refl : SameBut p k k := ⟨rfl, rfl, rfl, fun _ _ => .rfl, fun _ _ _ => .rfl⟩

theorem slots (h : SameBut p k k') (q : Nat) : k'.slots q = k.slots q := by
  simp only [Cache.slots, h.objSize, h.areaOff, h.objsPerSlab]

theorem fits (h : SameBut p k k') (hk : k.Fits) : k'.Fits where
  pos := h.objSize ▸ hk.pos
  room := by
    rw [h.objSize, h.areaOff]
    exact hk.room
  objsPerSlab := by
    rw [h.objSize, h.areaOff, h.objsPerSlab]
    exact hk.objsPerSlab

end Cache.SameBut

theorem SlabOk.congr (h : SlabOk out x s c q) (hq : q ≠ p)
    (hk : (s.cache c).SameBut p (s'.cache c)) (hslab : s'.slab q = s.slab q)
    (hlive : s'.liveOn q = s.liveOn q) (hout : s'.outside out' q = s.outside out q)
    (hx : x = some q → x' = some q)
    : SlabOk out' x' s' c q := by
  constructor
  case magic => rw [hslab, h.magic]
  case cache => rw [hslab, h.cache]
  case aligned => exact h.aligned
  case slots =>
    rw [hslab, hout, hk.slots]
    exact h.slots
  case inuse => rw [hslab, hlive, h.inuse]
  case objects => rw [hslab, hk.objsPerSlab, h.objects]
  case onPartial =>
    rw [hslab, hk.listed q hq]
    exact h.onPartial
  case owner =>
    intro i
    rw [hslab, hk.active i q hq]
    exact h.owner i
  case listed =>
    rw [hslab, hk.listed q hq]
    exact h.listed
  case unowned =>
    rw [hslab, hout]
    exact fun ho hx' => h.unowned ho fun hxq => hx' (hx hxq)

theorem CacheOk.congr (h : CacheOk s c) (hcache : s'.cache c = s.cache c) : CacheOk s' c := by
  obtain ⟨hfits, hactive, hlisted, hlnodup, hlen, hpnodup⟩ := h
  rw [← hcache] at hfits hactive hlisted hlnodup hlen hpnodup
  exact ⟨hfits, hactive, hlisted, hlnodup, hlen, hpnodup⟩

namespace Inv

theorem eq_of_mem_pages {d : Nat} (h : Inv out x s) (hc : c ∈ s.caches)
    (hp : p ∈ (s.cache c).pages) (hd : d ∈ s.caches) (hp' : p ∈ (s.cache d).pages)
    : d = c := by
  rw [← (h.slabOk c p hc hp).cache, (h.slabOk d p hd hp').cache]

end Inv

/--
The page `p` joins the pages of the cache `c` or leaves them.
-/
structure Repaged (x : Option Nat) (s s' : State) (c p : Nat) (pages : List Nat) : Prop where
  caches : s'.caches = s.caches
  cache (d : Nat) : s'.cache d = if d = c then { s.cache c with pages } else s.cache d
  slab (q : Nat) : q ≠ p → s'.slab q = s.slab q
  live : s'.live = s.live
  lost : s'.lost = s.lost
  count (q : Nat) : q ≠ p → s'.taken q = s.taken q ∧ s'.returned q = s.returned q
  mem (q : Nat) : q ≠ p → (q ∈ pages ↔ q ∈ (s.cache c).pages)
  nodup : pages.Nodup
  only (d : Nat) : d ∈ s.caches → p ∈ (s.cache d).pages → d = c
  joins : p ∈ pages → SlabOk [] x s' c p ∧ s'.taken p = s'.returned p + 1
  leaves : p ∉ pages → (p ∉ (s.cache c).partialList ∧ ∀ i, (s.cache c).cpuActive i ≠ some p)
    ∧ s.liveOn p = [] ∧ s'.taken p = s'.returned p

namespace Repaged

variable {pages : List Nat} {d : Nat}

section

variable (r : Repaged x s s' c p pages)
include r

theorem cache_self : s'.cache c = { s.cache c with pages } := by
  rw [r.cache, if_pos rfl]

theorem mem_pages (hq : q ≠ p) (d : Nat) : q ∈ (s'.cache d).pages ↔ q ∈ (s.cache d).pages := by
  rw [r.cache]
  split
  . next hd =>
    rw [hd]
    exact r.mem q hq
  . rfl

theorem joined (hd : d ∈ s.caches) (hp : p ∈ (s'.cache d).pages) : d = c ∧ p ∈ pages := by
  rw [r.cache] at hp
  split at hp
  . next hdc => exact ⟨hdc, hp⟩
  . next hdc => exact absurd (r.only d hd hp) hdc

theorem sameBut (d : Nat) : (s.cache d).SameBut p (s'.cache d) := by
  rw [r.cache]
  split
  . next hd =>
    rw [hd]
    exact ⟨rfl, rfl, rfl, fun _ _ => .rfl, fun _ _ _ => .rfl⟩
  . exact .refl

theorem liveOn (q : Nat) : s'.liveOn q = s.liveOn q := by
  unfold State.liveOn
  rw [r.live]

/-
A page that leaves is on no list of the cache.
-/
theorem cacheOk (h : CacheOk s d) : CacheOk s' d := by
  by_cases hdc : d = c
  . subst hdc
    refine ⟨(r.sameBut d).fits h.fits, ?_, ?_, ?_, ?_, ?_⟩
    all_goals rw [r.cache_self]
    . intro i q hi
      refine ⟨?_, (h.active i q hi).2⟩
      by_cases hqp : q = p
      . by_contra hnot
        exact (r.leaves (hqp ▸ hnot)).1.2 i (hqp ▸ hi)
      . exact (r.mem q hqp).2 (h.active i q hi).1
    . intro q hq
      by_cases hqp : q = p
      . by_contra hnot
        exact (r.leaves (hqp ▸ hnot)).1.1 (hqp ▸ hq)
      . exact (r.mem q hqp).2 (h.listed q hq)
    . exact h.listed_nodup
    . exact h.nrPartial
    . exact r.nodup
  . exact h.congr (by rw [r.cache, if_neg hdc])

theorem counts (h : ∀ q, s.returned q ≤ s.taken q ∧ s.taken q ≤ s.returned q + 1) (q : Nat)
    : s'.returned q ≤ s'.taken q ∧ s'.taken q ≤ s'.returned q + 1 := by
  by_cases hqp : q = p
  . subst hqp
    by_cases hp : q ∈ pages
    . have := (r.joins hp).2
      omega
    . have := (r.leaves hp).2.2
      omega
  . rw [(r.count q hqp).1, (r.count q hqp).2]
    exact h q

end

theorem inv (h : Inv [] x' s) (r : Repaged x s s' c p pages) (hc : c ∈ s.caches)
    (hx : ∀ q, q ≠ p → x' = some q → x = some q) : Inv [] x s' := by
  constructor
  case caches_ne_zero => exact r.caches ▸ h.caches_ne_zero
  case caches_nodup => exact r.caches ▸ h.caches_nodup
  case cacheOk =>
    intro d hd
    rw [r.caches] at hd
    exact r.cacheOk (h.cacheOk d hd)
  case slabOk =>
    intro d q hd hq
    rw [r.caches] at hd
    by_cases hqp : q = p
    . subst hqp
      obtain ⟨rfl, hp⟩ := r.joined hd hq
      exact (r.joins hp).1
    . exact (h.slabOk d q hd ((r.mem_pages hqp d).1 hq)).congr hqp (r.sameBut d) (r.slab q hqp)
        (r.liveOn q) (r.liveOn q) (hx q hqp)
  case outside =>
    rintro obj (hobj | hobj)
    . cases hobj
    . rw [r.live] at hobj
      obtain ⟨d, hd, hold⟩ := h.outside obj (.inr hobj)
      refine ⟨d, r.caches ▸ hd, ?_⟩
      by_cases hqp : slubPageOf obj = p
      . rw [r.only d hd (hqp ▸ hold), r.cache_self]
        by_contra hnot
        have hon : obj ∈ s.liveOn p := List.mem_filter.2 ⟨hobj, decide_eq_true hqp⟩
        rw [(r.leaves (hqp ▸ hnot)).2.1] at hon
        cases hon
      . exact (r.mem_pages hqp d).2 hold
  case held =>
    intro d q hd hq
    rw [r.caches] at hd
    by_cases hqp : q = p
    . subst hqp
      exact (r.joins (r.joined hd hq).2).2
    . rw [(r.count q hqp).1, (r.count q hqp).2]
      exact h.held d q hd ((r.mem_pages hqp d).1 hq)
  case counts => exact r.counts h.counts
  case found =>
    intro q hq
    by_cases hqp : q = p
    . subst hqp
      by_cases hp : q ∈ pages
      . refine .inl ⟨c, r.caches ▸ hc, ?_⟩
        rw [r.cache_self]
        exact hp
      . have := (r.leaves hp).2.2
        omega
    . rw [(r.count q hqp).1, (r.count q hqp).2] at hq
      rw [r.lost, r.caches]
      exact (h.found q hq).imp_left fun ⟨d, hd, hold⟩ => ⟨d, hd, (r.mem_pages hqp d).2 hold⟩

end Repaged

namespace Inv

section

variable (h : Inv out x s) (hc : c ∈ s.caches) (hp : p ∈ (s.cache c).pages)
include h hc hp

theorem update
    (hcaches : s'.caches = s.caches) (hcache : ∀ d, d ≠ c → s'.cache d = s.cache d)
    (hslab : ∀ q, q ≠ p → s'.slab q = s.slab q)
    (hlive : ∀ q, q ≠ p → s'.liveOn q = s.liveOn q)
    (hout : ∀ q, q ≠ p → s'.outside out' q = s.outside out q)
    (hsub : ∀ obj, obj ∈ out' ∨ obj ∈ s'.live → obj ∈ out ∨ obj ∈ s.live ∨ slubPageOf obj = p)
    (htaken : s'.taken = s.taken) (hreturned : s'.returned = s.returned) (hlost : s'.lost = s.lost)
    (hk : (s.cache c).SameBut p (s'.cache c))
    (hpages' : (s'.cache c).pages = (s.cache c).pages)
    (hnodup : (s'.cache c).partialList.Nodup)
    (hnr : (s'.cache c).nrPartial = (s'.cache c).partialList.length)
    (hbound : ∀ i, (s'.cache c).cpuActive i = some p → i < maxCpu)
    (hx : ∀ q, q ≠ p → x = some q → x' = some q)
    (hslabOk : SlabOk out' x' s' c p)
    : Inv out' x' s' := by
  have hpages : ∀ d, (s'.cache d).pages = (s.cache d).pages := by
    intro d
    by_cases hd : d = c
    . rw [hd, hpages']
    . rw [hcache d hd]
  constructor
  case caches_ne_zero => exact hcaches ▸ h.caches_ne_zero
  case caches_nodup => exact hcaches ▸ h.caches_nodup
  case cacheOk =>
    intro d hd
    rw [hcaches] at hd
    have hok := h.cacheOk d hd
    by_cases hdc : d = c
    . subst hdc
      refine ⟨hk.fits hok.fits, ?_, ?_, hnodup, hnr, hpages' ▸ hok.pages_nodup⟩
      . intro i q hq
        rw [hpages']
        by_cases hqp : q = p
        . subst hqp
          exact ⟨hp, hbound i hq⟩
        . exact hok.active i q ((hk.active i q hqp).mp hq)
      . intro q hq
        rw [hpages']
        by_cases hqp : q = p
        . exact hqp ▸ hp
        . exact hok.listed q ((hk.listed q hqp).mp hq)
    . exact hok.congr (hcache d hdc)
  case slabOk =>
    intro d q hd hq
    rw [hcaches] at hd
    rw [hpages] at hq
    by_cases hqp : q = p
    . subst hqp
      rw [h.eq_of_mem_pages hc hp hd hq]
      exact hslabOk
    . have hok := h.slabOk d q hd hq
      have hsame : (s.cache d).SameBut p (s'.cache d) := by
        by_cases hdc : d = c
        . rw [hdc]
          exact hk
        . rw [hcache d hdc]
          exact .refl
      exact hok.congr hqp hsame (hslab q hqp) (hlive q hqp) (hout q hqp) (hx q hqp)
  case outside =>
    intro obj hobj
    have hold : ∃ d ∈ s.caches, slubPageOf obj ∈ (s.cache d).pages := by
      rcases hsub obj hobj with hin | hin | hin
      . exact h.outside obj (.inl hin)
      . exact h.outside obj (.inr hin)
      . exact ⟨c, hc, hin ▸ hp⟩
    obtain ⟨d, hd, hmem⟩ := hold
    exact ⟨d, hcaches ▸ hd, (hpages d).symm ▸ hmem⟩
  case held =>
    intro d q hd hq
    rw [hcaches] at hd
    rw [hpages] at hq
    rw [htaken, hreturned]
    exact h.held d q hd hq
  case counts =>
    rw [htaken, hreturned]
    exact h.counts
  case found =>
    intro q hq
    rw [htaken, hreturned] at hq
    rw [hcaches, hlost]
    simp only [hpages]
    exact h.found q hq

theorem setSlab (sl : Slab)
    (hout : ∀ q, q ≠ p → s.outside out' q = s.outside out q)
    (hsub : ∀ obj, obj ∈ out' → obj ∈ out ∨ slubPageOf obj = p)
    (hx : ∀ q, q ≠ p → x = some q → x' = some q)
    (hslabOk : SlabOk out' x' (s.setSlab p sl) c p)
    : Inv out' x' (s.setSlab p sl) := by
  refine h.update hc hp rfl (fun _ _ => rfl) ?_ (fun _ _ => rfl) hout ?_ rfl rfl rfl .refl rfl
    (h.cacheOk c hc).listed_nodup (h.cacheOk c hc).nrPartial ?_ hx hslabOk
  . intro q hq
    simp [hq]
  . rintro obj (hobj | hobj)
    . rcases hsub obj hobj with hin | hin
      . exact .inl hin
      . exact .inr (.inr hin)
    . exact .inr (.inl hobj)
  . exact fun i hi => ((h.cacheOk c hc).active i p hi).2

end

end Inv

end SLUB
