import Skyline.SLUB.Lemmas.Inv

/-!
This module contains the proof that `Alloc` keeps the invariant.
-/

namespace SLUB

open Function

variable {s s' : State} {c p q obj i : Nat} {out out' : List Nat} {x x' : Option Nat}

@[simp]
theorem State.outside_setSlab (s : State) (p : Nat) (sl : Slab) (out : List Nat) (q : Nat)
    : (s.setSlab p sl).outside out q = s.outside out q := rfl

@[simp]
theorem State.liveOn_setSlab (s : State) (p : Nat) (sl : Slab) (q : Nat)
    : (s.setSlab p sl).liveOn q = s.liveOn q := rfl

@[simp]
theorem State.outside_nil (s : State) (p : Nat) : s.outside [] p = s.liveOn p := rfl

theorem State.outside_singleton (s : State) (obj p : Nat)
    : s.outside [obj] p = if slubPageOf obj = p then obj :: s.liveOn p else s.liveOn p := by
  unfold outside
  split
  . next h => simp [h]
  . next h => simp [h]

theorem SlabOk.outside_ne_nil (h : SlabOk out x s c p) (hfits : (s.cache c).Fits)
    (hfree : (s.slab p).freelist = []) (hforeign : (s.slab p).foreignHead = [])
    : s.outside out p ≠ [] := by
  intro hnil
  have hlen := h.slots.length_eq
  have := hfits.objsPerSlab_pos
  simp [hfree, hforeign, hnil] at hlen
  omega

theorem SlabOk.slubPageOf_free (h : SlabOk out x s c p) (hfits : (s.cache c).Fits)
    (hobj : obj ∈ (s.slab p).freelist)
    : slubPageOf obj = p := by
  apply hfits.slubPageOf_slot h.aligned
  rw [← h.slots.mem_iff]
  simp [hobj]

theorem SlabOk.content (h : SlabOk out x s c p) (hk : (s.cache c).SameBut p (s'.cache c))
    (hlisted : (s'.cache c).partialList = (s.cache c).partialList)
    (hactive : (s'.cache c).cpuActive = (s.cache c).cpuActive)
    (hmagic : (s'.slab p).magic = (s.slab p).magic) (hcache : (s'.slab p).cache = (s.slab p).cache)
    (hobjects : (s'.slab p).objects = (s.slab p).objects)
    (honPartial : (s'.slab p).onPartial = (s.slab p).onPartial)
    (howner : (s'.slab p).cpuOwner = (s.slab p).cpuOwner)
    (hslots : ((s'.slab p).freelist ++ (s'.slab p).foreignHead ++ s'.outside out' p).Perm
      ((s.slab p).freelist ++ (s.slab p).foreignHead ++ s.outside out p))
    (hinuse : (s'.slab p).inuse = (s'.liveOn p).length)
    (hunowned : (s.slab p).cpuOwner = none → x' ≠ some p → s'.outside out' p ≠ [])
    : SlabOk out' x' s' c p where
  magic := hmagic.trans h.magic
  cache := hcache.trans h.cache
  aligned := h.aligned
  slots := hk.slots p ▸ hslots.trans h.slots
  inuse := hinuse
  objects := by rw [hobjects, hk.objsPerSlab, h.objects]
  onPartial := by
    rw [honPartial, hlisted]
    exact h.onPartial
  owner i := by
    rw [howner, hactive]
    exact h.owner i
  listed := by
    rw [howner, hlisted]
    exact h.listed
  unowned := by
    rw [howner]
    exact hunowned

theorem SlabOk.place (h : SlabOk out x s c p) (hk : (s.cache c).SameBut p (s'.cache c))
    (hmagic : (s'.slab p).magic = (s.slab p).magic) (hcache : (s'.slab p).cache = (s.slab p).cache)
    (hobjects : (s'.slab p).objects = (s.slab p).objects)
    (hinuse : (s'.slab p).inuse = (s.slab p).inuse)
    (hfreelist : (s'.slab p).freelist = (s.slab p).freelist)
    (hforeign : (s'.slab p).foreignHead = (s.slab p).foreignHead) (hlive : s'.live = s.live)
    (honPartial : (s'.slab p).onPartial = true ↔ p ∈ (s'.cache c).partialList)
    (howner : ∀ i, (s'.slab p).cpuOwner = some i ↔ (s'.cache c).cpuActive i = some p)
    (hlisted : p ∈ (s'.cache c).partialList → (s'.slab p).cpuOwner = none)
    (hunowned : (s'.slab p).cpuOwner = none → x' ≠ some p → s.outside out p ≠ [])
    : SlabOk out x' s' c p := by
  have hliveOn : s'.liveOn p = s.liveOn p := by
    unfold State.liveOn
    rw [hlive]
  have hout : s'.outside out p = s.outside out p := by
    unfold State.outside
    rw [hliveOn]
  constructor
  case magic => rw [hmagic, h.magic]
  case cache => rw [hcache, h.cache]
  case aligned => exact h.aligned
  case slots =>
    rw [hfreelist, hforeign, hout, hk.slots]
    exact h.slots
  case inuse => rw [hinuse, hliveOn, h.inuse]
  case objects => rw [hobjects, hk.objsPerSlab, h.objects]
  case onPartial => exact honPartial
  case owner => exact howner
  case listed => exact hlisted
  case unowned =>
    rw [hout]
    exact hunowned

variable {rest : List Nat} {cpu page : Option Nat}

namespace Inv

theorem harvest (h : Inv [] none s) (hc : c ∈ s.caches) (hp : p ∈ (s.cache c).pages)
    : Inv [] none (harvest s p) := by
  have hok := h.slabOk c p hc hp
  refine h.setSlab hc hp _ (fun _ _ => rfl) (fun _ => .inl) (fun _ _ => id) ?_
  refine hok.content .refl rfl rfl ?_ ?_ ?_ ?_ ?_ ?_ ?_ hok.unowned
  case refine_6 => simpa using List.perm_append_comm.append_right _
  all_goals simp [hok.inuse]

theorem pop (h : Inv [] x s) (hc : c ∈ s.caches) (hp : p ∈ (s.cache c).pages)
    (hx : x = none ∨ x = some p) (hfree : (s.slab p).freelist = obj :: rest)
    : Inv [obj] none (s.setSlab p { s.slab p with freelist := rest }) := by
  have hok := h.slabOk c p hc hp
  have hpage : slubPageOf obj = p :=
    hok.slubPageOf_free (h.cacheOk c hc).fits (by simp [hfree])
  have hout : s.outside [obj] p = obj :: s.liveOn p := by
    rw [State.outside_singleton, if_pos hpage]
  refine h.setSlab hc hp _ ?_ ?_ ?_ ?_
  . intro q hq
    rw [State.outside_singleton, if_neg (by omega)]
    rfl
  . intro obj' hobj'
    rw [List.mem_singleton] at hobj'
    exact .inr (hobj' ▸ hpage)
  . intro q hq hxq
    rcases hx with hx | hx
    . simp [hx] at hxq
    . simp [hx, hq.symm] at hxq
  . refine hok.content .refl rfl rfl ?_ ?_ ?_ ?_ ?_ ?_ ?_ ?_
    case refine_6 =>
      simp only [State.setSlab_slab, if_pos, State.outside_setSlab, hout, hfree]
      exact List.perm_middle
    all_goals simp [hok.inuse, hout]

theorem countAlloc (h : Inv [obj] none s) (hc : c ∈ s.caches)
    (hp : slubPageOf obj ∈ (s.cache c).pages)
    : Inv [] none (countAlloc s c obj) := by
  have hok := h.slabOk c _ hc hp
  have hout : ∀ q, (SLUB.countAlloc s c obj).liveOn q = s.outside [obj] q := by
    intro q
    rw [State.outside_singleton]
    simp only [SLUB.countAlloc, State.liveOn, List.filter_cons, decide_eq_true_eq]
    rfl
  have hk : (s.cache c).SameBut (slubPageOf obj) ((SLUB.countAlloc s c obj).cache c) := by
    simp only [SLUB.countAlloc, State.setCache_cache, if_pos]
    exact ⟨rfl, rfl, rfl, fun _ _ => .rfl, fun _ _ _ => .rfl⟩
  refine h.update hc hp rfl ?_ ?_ ?_ (fun q _ => hout q) ?_ rfl rfl rfl hk ?_ ?_ ?_ ?_
    (fun _ _ => id) ?_
  . intro d hd
    simp [SLUB.countAlloc, hd]
  . intro q hq
    simp [SLUB.countAlloc, hq]
  . intro q hq
    rw [hout, State.outside_singleton, if_neg hq.symm]
  . intro obj' hobj'
    simp only [SLUB.countAlloc, List.not_mem_nil, false_or, List.mem_cons] at hobj'
    rcases hobj' with rfl | hmem
    . exact .inl (by simp)
    . exact .inr (.inl hmem)
  . simp [SLUB.countAlloc]
  . simpa [SLUB.countAlloc] using (h.cacheOk c hc).listed_nodup
  . simpa [SLUB.countAlloc] using (h.cacheOk c hc).nrPartial
  . intro i hi
    simp only [SLUB.countAlloc, State.setCache_cache, if_pos] at hi
    exact ((h.cacheOk c hc).active i _ hi).2
  . refine hok.content hk ?_ ?_ ?_ ?_ ?_ ?_ ?_ ?_ ?_ ?_
    case refine_8 =>
      rw [State.outside_nil, hout]
      simp [SLUB.countAlloc]
    case refine_9 =>
      rw [hout, State.outside_singleton, if_pos rfl]
      simp [SLUB.countAlloc, hok.inuse]
    case refine_10 =>
      rw [State.outside_nil, hout]
      exact hok.unowned
    all_goals simp [SLUB.countAlloc]

theorem move (h : Inv out x s) (hc : c ∈ s.caches) (hp : p ∈ (s.cache c).pages) (k : Cache)
    (onPartial : Bool) (cpuOwner : Option Nat) (hk : (s.cache c).SameBut p k)
    (hpages : k.pages = (s.cache c).pages) (hnodup : k.partialList.Nodup)
    (hnr : k.nrPartial = k.partialList.length) (hbound : ∀ i, k.cpuActive i = some p → i < maxCpu)
    (hx : ∀ q, q ≠ p → x = some q → x' = some q)
    (honPartial : onPartial = true ↔ p ∈ k.partialList)
    (howner : ∀ i, cpuOwner = some i ↔ k.cpuActive i = some p)
    (hlisted : p ∈ k.partialList → cpuOwner = none)
    (hunowned : cpuOwner = none → x' ≠ some p → s.outside out p ≠ [])
    : Inv out x' ((s.setCache c k).setSlab p
        { s.slab p with onPartial := onPartial, cpuOwner := cpuOwner }) := by
  have hcache : ((s.setCache c k).setSlab p
      { s.slab p with onPartial := onPartial, cpuOwner := cpuOwner }).cache c = k := by
    simp
  refine h.update hc hp rfl ?_ ?_ (fun _ _ => rfl)
    (fun _ _ => rfl) ?_ rfl rfl rfl ?_ ?_ ?_ ?_ ?_ hx ?_
  . intro d hd
    simp [hd]
  . intro q hq
    simp [hq]
  . rintro obj (hobj | hobj)
    . exact .inl hobj
    . exact .inr (.inl hobj)
  . rw [hcache]
    exact hk
  . rw [hcache]
    exact hpages
  . rw [hcache]
    exact hnodup
  . rw [hcache]
    exact hnr
  . rw [hcache]
    exact hbound
  . refine (h.slabOk c p hc hp).place (by rwa [hcache]) ?_ ?_ ?_ ?_ ?_ ?_ rfl ?_ ?_ ?_ ?_
    all_goals simp only [State.setSlab_slab, if_pos, hcache]
    . exact honPartial
    . exact howner
    . exact hlisted
    . exact hunowned

theorem link (h : Inv out x s) (hc : c ∈ s.caches) (hp : p ∈ (s.cache c).pages)
    (howner : (s.slab p).cpuOwner = none) (hlisted : p ∉ (s.cache c).partialList)
    : Inv out x (link s c p) := by
  have hok := h.slabOk c p hc hp
  refine h.move hc hp
    { s.cache c with
      partialList := p :: (s.cache c).partialList
      nrPartial := (s.cache c).nrPartial + 1 }
    true (s.slab p).cpuOwner ⟨rfl, rfl, rfl, ?_, fun _ _ _ => .rfl⟩ rfl ?_ ?_ ?_ (fun _ _ => id) ?_
    hok.owner (fun _ => howner) hok.unowned
  . intro q hq
    simp [hq]
  . exact (h.cacheOk c hc).listed_nodup.cons hlisted
  . simp [(h.cacheOk c hc).nrPartial]
  . exact fun i hi => ((h.cacheOk c hc).active i p hi).2
  . simp

theorem detach_eq (hactive : (s.cache c).cpuActive i = some p)
    : SLUB.detach s c (some i) p
      = (s.setCache c
          { s.cache c with cpuActive := Function.update (s.cache c).cpuActive i none }).setSlab
          p { s.slab p with cpuOwner := none } := by
  simp only [SLUB.detach, if_pos hactive, State.setCache_slab]

theorem detach (h : Inv [] none s) (hc : c ∈ s.caches) (hactive : (s.cache c).cpuActive i = some p)
    (hfree : (s.slab p).freelist = []) (hforeign : (s.slab p).foreignHead = [])
    : Inv [] none (detach s c (some i) p) := by
  have hp := ((h.cacheOk c hc).active i p hactive).1
  have hok := h.slabOk c p hc hp
  have howner := (hok.owner i).mpr hactive
  rw [detach_eq hactive]
  refine h.move hc hp { s.cache c with cpuActive := Function.update (s.cache c).cpuActive i none }
    (s.slab p).onPartial none ⟨rfl, rfl, rfl, fun _ _ => .rfl, ?_⟩ rfl
    (h.cacheOk c hc).listed_nodup (h.cacheOk c hc).nrPartial ?_ (fun _ _ => id) hok.onPartial ?_
    (fun _ => rfl) ?_
  . intro j q hq
    by_cases hj : j = i
    . subst hj
      simp [hactive, hq.symm]
    . simp [hj]
  . intro j hj
    by_cases hji : j = i
    . simp [hji] at hj
    . simp only [update_of_ne hji] at hj
      exact ((h.cacheOk c hc).active j p hj).2
  . intro j
    by_cases hji : j = i
    . simp [hji]
    . simp only [update_of_ne hji, ← hok.owner j, howner]
      simp [Ne.symm hji]
  . exact fun _ _ => hok.outside_ne_nil (h.cacheOk c hc).fits hfree hforeign

theorem adopt (h : Inv [] x s) (hc : c ∈ s.caches) (hp : p ∈ (s.cache c).pages)
    (hx : x = none ∨ x = some p) (hi : i < maxCpu) (hactive : (s.cache c).cpuActive i = none)
    (howner : (s.slab p).cpuOwner = none) (hlisted : p ∉ (s.cache c).partialList)
    : Inv [] none (adopt s c (some i) p) := by
  have hok := h.slabOk c p hc hp
  have hnone : ∀ j, (s.cache c).cpuActive j ≠ some p := by
    intro j hj
    have := (hok.owner j).mpr hj
    simp [howner] at this
  refine h.move hc hp
    { s.cache c with cpuActive := Function.update (s.cache c).cpuActive i (some p) }
    (s.slab p).onPartial (some i) ⟨rfl, rfl, rfl, fun _ _ => .rfl, ?_⟩ rfl
    (h.cacheOk c hc).listed_nodup (h.cacheOk c hc).nrPartial ?_ ?_ hok.onPartial ?_
    (fun hin => absurd hin hlisted) nofun
  . intro j q hq
    by_cases hj : j = i
    . subst hj
      simp [hactive, hq.symm]
    . simp [hj]
  . intro j hj
    by_cases hji : j = i
    . exact hji ▸ hi
    . simp only [update_of_ne hji] at hj
      exact absurd hj (hnone j)
  . intro q hq hxq
    rcases hx with hx | hx
    . simp [hx] at hxq
    . simp [hx, hq.symm] at hxq
  . intro j
    by_cases hji : j = i
    . simp [hji]
    . simp only [update_of_ne hji]
      simp [Ne.symm hji, hnone]

end Inv

structure Chosen (x : Option Nat) (s : State) (c p : Nat) : Prop where
  inv : Inv [] x s
  cache : c ∈ s.caches
  page : p ∈ (s.cache c).pages
  fresh : x = none ∨ x = some p ∧ (s.slab p).freelist ≠ []
  owner : (s.slab p).cpuOwner = none
  listed : p ∉ (s.cache c).partialList

theorem Inv.refill_listed (h : Inv [] none s) (hc : c ∈ s.caches) (page : Option Nat)
    (hlist : (s.cache c).partialList = p :: rest)
    : ∃ s', refill s c page = some (p, s') ∧ Chosen none s' c p
      ∧ (s'.cache c).cpuActive = (s.cache c).cpuActive ∧ s'.live = s.live := by
  have hcok := h.cacheOk c hc
  have hp := hcok.listed p (by simp [hlist])
  have hok := h.slabOk c p hc hp
  have hnodup := hcok.listed_nodup
  rw [hlist, List.nodup_cons] at hnodup
  have hinv := h.move hc hp
    { s.cache c with
      partialList := rest
      nrPartial := (s.cache c).nrPartial - 1
      refillCount := (s.cache c).refillCount + 1 }
    false (s.slab p).cpuOwner ⟨rfl, rfl, rfl, by simp +contextual [hlist], fun _ _ _ => .rfl⟩ rfl
    hnodup.2 (by simp [hcok.nrPartial, hlist]) (fun i hi => (hcok.active i p hi).2)
    (fun _ _ => id) (by simp [hnodup.1]) hok.owner (fun hin => absurd hin hnodup.1) hok.unowned
  refine ⟨_, ?_, ⟨hinv, hc, ?_, .inl rfl, ?_, ?_⟩, ?_, rfl⟩
  . simp only [refill, hlist]
    rfl
  . simpa using hp
  . simpa using hok.listed (by simp [hlist])
  . simpa using hnodup.1
  . simp

theorem Inv.liveOn_eq_nil (h : Inv [] none s) (hp : ∀ c ∈ s.caches, p ∉ (s.cache c).pages)
    : s.liveOn p = [] := by
  unfold State.liveOn
  rw [List.filter_eq_nil_iff]
  intro obj hobj
  obtain ⟨c, hc, hmem⟩ := h.outside obj (.inr hobj)
  rw [decide_eq_true_eq]
  rintro rfl
  exact hp c hc hmem

def freshSlab (s : State) (c p : Nat) : State :=
  let k := s.cache c
  let s := s.setSlab p ⟨slubPageMagic, c, (k.slots p).reverse, [], 0, k.objsPerSlab, none, false⟩
  let s := s.setCache c { k with pages := p :: k.pages }
  { s with taken := update s.taken p (s.taken p + 1) }

theorem slubNewSlab_eq (h : (s.cache c).Fits)
    : slubNewSlab s c (some p) = some (p, freshSlab s c p) := by
  simp only [slubNewSlab, h.carve_slots]
  rfl

theorem freshSlab_cache (s : State) (c p d : Nat)
    : (freshSlab s c p).cache d
      = if d = c then { s.cache c with pages := p :: (s.cache c).pages } else s.cache d := by
  simp [freshSlab]

theorem freshSlab_slab (s : State) (c p q : Nat)
    : (freshSlab s c p).slab q
      = if q = p then
          ⟨slubPageMagic, c, ((s.cache c).slots p).reverse, [], 0, (s.cache c).objsPerSlab, none,
            false⟩
        else
          s.slab q := by
  simp [freshSlab]

namespace Inv

theorem not_mem_pages (h : Inv out x s) (hfree : s.taken p = s.returned p) (hc : c ∈ s.caches)
    : p ∉ (s.cache c).pages := by
  intro hmem
  have := h.held c p hc hmem
  omega

theorem freshSlab_slabOk (h : Inv [] none s) (hc : c ∈ s.caches) (hp : p % pageSize = 0)
    (hfree : s.taken p = s.returned p)
    : SlabOk [] (some p) (freshSlab s c p) c p := by
  have hlive : (SLUB.freshSlab s c p).liveOn p = [] :=
    h.liveOn_eq_nil fun d hd => h.not_mem_pages hfree hd
  have hnot := h.not_mem_pages hfree hc
  have hlisted : p ∉ (s.cache c).partialList := fun hin => hnot ((h.cacheOk c hc).listed p hin)
  have hactive : ∀ i, (s.cache c).cpuActive i ≠ some p := fun i hi =>
    hnot ((h.cacheOk c hc).active i p hi).1
  have hslots : ((SLUB.freshSlab s c p).cache c).slots p = (s.cache c).slots p := by
    rw [freshSlab_cache, if_pos rfl]
    rfl
  have hslab := freshSlab_slab s c p p
  rw [if_pos rfl] at hslab
  constructor
  case slots =>
    rw [hslab, hslots, State.outside_nil, hlive]
    simp [List.reverse_perm]
  case unowned => exact fun _ hx => absurd rfl hx
  case aligned => exact hp
  all_goals simp only [hslab, hlive, freshSlab_cache, if_pos]
  case inuse => rfl
  case onPartial => simp [hlisted]
  case owner => simp [hactive]
  case listed => exact fun _ => trivial

theorem freshSlab (h : Inv [] none s) (hc : c ∈ s.caches) (hp : p % pageSize = 0)
    (hfree : s.taken p = s.returned p)
    : Inv [] (some p) (freshSlab s c p) := by
  refine Repaged.inv h ⟨rfl, freshSlab_cache s c p, fun q hq => by rw [freshSlab_slab, if_neg hq],
    rfl, rfl, fun q hq => ⟨update_of_ne hq .., rfl⟩, fun q hq => by simp [hq],
    (h.cacheOk c hc).pages_nodup.cons (h.not_mem_pages hfree hc),
    fun d hd hpd => absurd hpd (h.not_mem_pages hfree hd),
    fun _ => ⟨h.freshSlab_slabOk hc hp hfree, ?_⟩, fun hnot => absurd List.mem_cons_self hnot⟩ hc
    (fun _ _ hx => by cases hx)
  simp [SLUB.freshSlab, hfree]

theorem refill (h : Inv [] none s) (hc : c ∈ s.caches) (page : Option Nat)
    (hpage : ∀ p ∈ page, p % pageSize = 0 ∧ s.taken p = s.returned p)
    : SLUB.refill s c page = none ∨ ∃ p s' x, SLUB.refill s c page = some (p, s')
      ∧ Chosen x s' c p ∧ (s'.cache c).cpuActive = (s.cache c).cpuActive ∧ s'.live = s.live := by
  cases hlist : (s.cache c).partialList with
  | cons p =>
    obtain ⟨s', hs', hchosen⟩ := h.refill_listed hc page hlist
    exact .inr ⟨p, s', none, hs', hchosen⟩
  | nil =>
    cases page with
    | none =>
      left
      simp [SLUB.refill, hlist, slubNewSlab]
    | some p =>
      obtain ⟨hp, hfree⟩ := hpage p rfl
      have hcok := h.cacheOk c hc
      have hinv := h.freshSlab hc hp hfree
      refine .inr ⟨p, SLUB.freshSlab s c p, some p, ?_, ⟨hinv, hc, ?_, ?_, ?_, ?_⟩, ?_, rfl⟩
      . simp only [SLUB.refill, hlist]
        exact slubNewSlab_eq hcok.fits
      . rw [freshSlab_cache, if_pos rfl]
        exact List.mem_cons_self
      . refine .inr ⟨rfl, ?_⟩
        rw [freshSlab_slab, if_pos rfl]
        intro hnil
        have hlen := congrArg List.length hnil
        have := hcok.fits.objsPerSlab_pos
        simp at hlen
        omega
      . rw [freshSlab_slab, if_pos rfl]
      . simp [freshSlab_cache, hlist]
      . simp [freshSlab_cache]

end Inv

structure Given (s : State) (c : Nat) (r : Option Nat × State) : Prop where
  inv : Inv r.1.toList none r.2
  cache : c ∈ r.2.caches
  page (obj : Nat) : r.1 = some obj → slubPageOf obj ∈ (r.2.cache c).pages
  live : r.2.live = s.live

theorem slubStackPop_cases (s : State) (p : Nat)
    : ((s.slab p).freelist = [] ∧ slubStackPop s p = (none, s))
      ∨ ∃ obj rest, (s.slab p).freelist = obj :: rest
        ∧ slubStackPop s p = (some obj, s.setSlab p { s.slab p with freelist := rest }) := by
  unfold slubStackPop
  split
  . next h => exact .inl ⟨h, rfl⟩
  . next obj rest h => exact .inr ⟨obj, rest, h, rfl⟩

theorem adopt_none (howner : (s.slab p).cpuOwner = none) : adopt s c none p = s := by
  have hsame : { s.slab p with cpuOwner := none } = s.slab p := by rw [← howner]
  simp only [adopt, hsame, State.setSlab, update_eq_self]

namespace Inv

theorem pop_given (h : Inv [] x s) (hc : c ∈ s.caches) (hp : p ∈ (s.cache c).pages)
    (hx : x = none ∨ x = some p ∧ (s.slab p).freelist ≠ [])
    : Given s c (slubStackPop s p) := by
  rcases slubStackPop_cases s p with ⟨hnil, heq⟩ | ⟨obj, rest, hcons, heq⟩
  . rw [heq]
    rcases hx with rfl | ⟨_, hne⟩
    . exact ⟨h, hc, by simp, rfl⟩
    . exact absurd hnil hne
  . rw [heq]
    have hpage : slubPageOf obj = p :=
      (h.slabOk c p hc hp).slubPageOf_free (h.cacheOk c hc).fits (by simp [hcons])
    refine ⟨h.pop hc hp (hx.imp_right And.left) hcons, hc, ?_, rfl⟩
    rintro obj' heq'
    cases heq'
    simpa [hpage] using hp

theorem slowRefill_some (h : Chosen x s c p) (hi : i < maxCpu)
    (hactive : (s.cache c).cpuActive i = none)
    : Given s c (slubStackPop (SLUB.adopt s c (some i) p) p) := by
  have hinv := h.inv.adopt h.cache h.page (h.fresh.imp_right And.left) hi hactive h.owner h.listed
  have hgiven := hinv.pop_given h.cache (c := c) (p := p) (by simpa [SLUB.adopt] using h.page)
    (.inl rfl)
  exact ⟨hgiven.inv, hgiven.cache, hgiven.page, hgiven.live⟩

theorem slowRefill_none (h : Chosen x s c p)
    : Given s c ((slubStackPop s p).1, giveBack (slubStackPop s p).2 c none p) := by
  have hgiven := h.inv.pop_given h.cache h.page h.fresh
  rcases slubStackPop_cases s p with ⟨hnil, heq⟩ | ⟨obj, rest, hcons, heq⟩
  . rw [heq] at hgiven ⊢
    simpa [giveBack, hnil] using hgiven
  . rw [heq] at hgiven ⊢
    simp only [giveBack]
    split
    . have hpage : p ∈ ((s.setSlab p { s.slab p with freelist := rest }).cache c).pages := h.page
      have hlink := hgiven.inv.link hgiven.cache hpage (by simpa using h.owner) h.listed
      refine ⟨hlink, hgiven.cache, ?_, rfl⟩
      intro obj' hobj'
      simpa [SLUB.link] using hgiven.page obj' hobj'
    . exact hgiven

theorem slowRefill (h : Inv [] none s) (hc : c ∈ s.caches) (cpu page : Option Nat)
    (hcpu : ∀ i ∈ cpu, i < maxCpu ∧ (s.cache c).cpuActive i = none)
    (hpage : ∀ p ∈ page, p % pageSize = 0 ∧ s.taken p = s.returned p)
    : Given s c (slowRefill s c cpu page) := by
  unfold SLUB.slowRefill
  rcases h.refill hc page hpage with hnone | ⟨p, s', x, hsome, hchosen, hactive, hlive⟩
  . rw [hnone]
    exact ⟨h, hc, by simp, rfl⟩
  . rw [hsome]
    cases cpu with
    | none =>
      simp only [adopt_none hchosen.owner]
      have hgiven := slowRefill_none hchosen
      exact ⟨hgiven.inv, hgiven.cache, hgiven.page, hgiven.live.trans hlive⟩
    | some i =>
      obtain ⟨hi, hnone⟩ := hcpu i rfl
      have hgiven := slowRefill_some hchosen hi (by rw [hactive, hnone])
      exact ⟨hgiven.inv, hgiven.cache, hgiven.page, hgiven.live.trans hlive⟩

theorem popActive (h : Inv [] none s) (hc : c ∈ s.caches) (hp : p ∈ (s.cache c).pages)
    : Given s c (popActive s p) := by
  have hgiven := h.pop_given hc hp (.inl rfl)
  have hharvest := (h.harvest hc hp).pop_given (c := c) (p := p) hc hp (.inl rfl)
  unfold SLUB.popActive
  rcases slubStackPop_cases s p with ⟨hnil, heq⟩ | ⟨obj, rest, hcons, heq⟩
  . rw [heq]
    exact ⟨hharvest.inv, hharvest.cache, hharvest.page, hharvest.live⟩
  . rw [heq] at hgiven ⊢
    exact hgiven

theorem popActive_none (hnone : (SLUB.popActive s p).1 = none)
    : ((SLUB.popActive s p).2.slab p).freelist = []
      ∧ ((SLUB.popActive s p).2.slab p).foreignHead = []
      ∧ (SLUB.popActive s p).2.cache = s.cache ∧ (SLUB.popActive s p).2.taken = s.taken
      ∧ (SLUB.popActive s p).2.returned = s.returned := by
  unfold SLUB.popActive at hnone ⊢
  rcases slubStackPop_cases s p with ⟨hnil, heq⟩ | ⟨obj, rest, hcons, heq⟩
  . simp only [heq] at hnone ⊢
    rcases slubStackPop_cases (SLUB.harvest s p) p with ⟨hnil', heq'⟩ | ⟨obj, rest, hcons, heq'⟩
    . rw [heq']
      exact ⟨hnil', by simp [SLUB.harvest], rfl, rfl, rfl⟩
    . rw [heq'] at hnone
      cases hnone
  . rw [heq] at hnone
    cases hnone

section

variable (h : Inv [] none s) (hc : c ∈ s.caches)
include h hc

theorem slowAlloc_none
    (hcpu : ∀ i ∈ cpu, i < maxCpu) (hbind : cpu.bind (s.cache c).cpuActive = none)
    (hpage : ∀ p ∈ page, p % pageSize = 0 ∧ s.taken p = s.returned p)
    : Given s c (slowAlloc s c cpu none page) := by
  refine h.slowRefill hc cpu page (fun i hi => ⟨hcpu i hi, ?_⟩) hpage
  rw [Option.mem_def] at hi
  rwa [hi] at hbind

theorem slowAlloc_some (hi : i < maxCpu)
    (hactive : (s.cache c).cpuActive i = some p) (hfree : (s.slab p).freelist = [])
    (hforeign : (s.slab p).foreignHead = [])
    (hpage : ∀ p ∈ page, p % pageSize = 0 ∧ s.taken p = s.returned p)
    : Given s c (slowAlloc s c (some i) (some p) page) := by
  have hdetach := h.detach hc hactive hfree hforeign
  have hpop : slubStackPop s p = (none, s) := by
    unfold slubStackPop
    rw [hfree]
  simp only [SLUB.slowAlloc, hpop]
  rw [detach_eq hactive] at hdetach ⊢
  have hgiven := hdetach.slowRefill (c := c) hc (some i) page (by simpa using hi) hpage
  exact ⟨hgiven.inv, hgiven.cache, hgiven.page, hgiven.live⟩

theorem takeObject
    (hcpu : ∀ i ∈ cpu, i < maxCpu)
    (hpage : ∀ p ∈ page, p % pageSize = 0 ∧ s.taken p = s.returned p)
    : Given s c (takeObject s c cpu page) := by
  unfold SLUB.takeObject
  split
  . next hbind => exact h.slowAlloc_none hc hcpu hbind hpage
  . next p hbind =>
    obtain ⟨i, rfl, hactive⟩ := Option.bind_eq_some_iff.mp hbind
    have hpop := h.popActive hc ((h.cacheOk c hc).active i p hactive).1
    have hnone := popActive_none (s := s) (p := p)
    generalize SLUB.popActive s p = r at *
    obtain ⟨obj, s'⟩ := r
    cases obj with
    | some => exact hpop
    | none =>
      obtain ⟨hfree, hforeign, hcache, htaken, hreturned⟩ := hnone rfl
      simp only at hfree hforeign hcache htaken hreturned
      rw [← hcache] at hactive
      rw [← htaken, ← hreturned] at hpage
      have hslow := hpop.inv.slowAlloc_some hpop.cache (hcpu i rfl) hactive hfree hforeign hpage
      exact ⟨hslow.inv, hslow.cache, hslow.page, hslow.live.trans hpop.live⟩

theorem alloc (cpu : Option Nat)
    (hpage : ∀ p ∈ page, p % pageSize = 0 ∧ s.taken p = s.returned p)
    : Inv [] none (alloc s c cpu page).2
      ∧ (SLUB.alloc s c cpu page).2.live = (SLUB.alloc s c cpu page).1.toList ++ s.live := by
  unfold SLUB.alloc
  split
  . exact ⟨h, rfl⟩
  . have hcpu : ∀ i ∈ cpuSlot cpu, i < maxCpu := by
      intro i hi
      unfold cpuSlot at hi
      rw [Option.mem_def, Option.filter_eq_some_iff] at hi
      simpa using hi.2
    have hgiven := h.takeObject hc hcpu hpage
    generalize SLUB.takeObject s c (cpuSlot cpu) page = r at *
    obtain ⟨obj, s'⟩ := r
    obtain ⟨hinv, hc', hp, hlive⟩ := hgiven
    cases obj with
    | none => exact ⟨hinv, hlive⟩
    | some obj =>
      refine ⟨hinv.countAlloc hc' (hp obj rfl), ?_⟩
      exact congrArg (obj :: ·) hlive

end

end Inv

end SLUB
