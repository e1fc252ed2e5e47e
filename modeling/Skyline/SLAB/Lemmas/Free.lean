import Skyline.SLAB.Lemmas.Alloc

/-!
This module contains that `Free` and `DrainCpuCache` keep the invariant and do not stop, and when
they unlink no page.
-/

namespace SLAB

open Function

variable {s s' : State} {c p o cpu : Nat} {kind : Nat → Kind} {batch hand : List Nat}

/--
The pages of a size class on which no object is in use.
-/
def State.deserted (s : State) (c : Nat) : List Nat :=
  s.taken.filter fun p => (s.page p).cache = c ∧ ∀ o ∈ s.live, pageOf o ≠ p

/--
`n` more objects on the global free list cannot leave more than `EMPTY_CACHE_LIMIT` pages empty.
-/
def State.Spares (s : State) (c n : Nat) : Prop :=
  (s.cache c).globalFreeCount + n < drainHighWatermark ∨ (s.deserted c).length ≤ emptyCacheLimit

instance (s : State) (c n : Nat) : Decidable (s.Spares c n) :=
  inferInstanceAs (Decidable (_ ∨ _))

structure Within (c : Nat) (s s' : State) : Prop where
  live : s'.live = s.live
  taken : s'.taken = s.taken
  large : s'.large = s.large
  page : ∀ p, (s'.page p).cache = (s.page p).cache
  cache : ∀ d, d ≠ c → s'.cache d = s.cache d
  magazine : ∀ i d, d ≠ c → s'.magazine i d = s.magazine i d

namespace Within

variable {t : State}

theorem refl : Within c s s := ⟨rfl, rfl, rfl, fun _ => rfl, fun _ _ => rfl, fun _ _ _ => rfl⟩

theorem trans (h : Within c s t) (h' : Within c t s') : Within c s s' :=
  ⟨h'.live.trans h.live, h'.taken.trans h.taken, h'.large.trans h.large,
    fun p => (h'.page p).trans (h.page p), fun d hd => (h'.cache d hd).trans (h.cache d hd),
    fun i d hd => (h'.magazine i d hd).trans (h.magazine i d hd)⟩

theorem setCache (h : Within c s s') (k : Cache) : Within c s (s'.setCache c k) := by
  refine ⟨h.live, h.taken, h.large, h.page, fun d hd => ?_, h.magazine⟩
  rw [setCache_cache, if_neg hd]
  exact h.cache d hd

theorem setMagazine (h : Within c s s') (m : Magazine) : Within c s (s'.setMagazine cpu c m) := by
  refine ⟨h.live, h.taken, h.large, h.page, h.cache, fun i d hd => ?_⟩
  rw [setMagazine_magazine, if_neg (fun heq => hd heq.2)]
  exact h.magazine i d hd

theorem setPage (h : Within c s s') {pg : Page} (hpg : pg.cache = (s'.page p).cache)
    : Within c s (s'.setPage p pg) :=
  ⟨h.live, h.taken, h.large, fun q => (class_setPage hpg q).trans (h.page q), h.cache, h.magazine⟩

theorem deserted (h : Within c s s') (d : Nat) : s'.deserted d = s.deserted d := by
  simp only [State.deserted, h.taken, h.live, h.page]

theorem trimEmpty (h : Within c s s') : Within c s (trimEmpty s' c) := by
  unfold SLAB.trimEmpty
  simp only
  split
  . split
    . exact h
    . have hset := h.setCache (c := c)
        { s'.cache c with empty := ‹List Nat›, emptyCount := (s'.cache c).emptyCount - 1 }
      exact ⟨hset.live, hset.taken, hset.large, hset.page, hset.cache, hset.magazine⟩
  . exact h

theorem relist (h : Within c s s') : Within c s (relist s' c p) := by
  unfold SLAB.relist
  simp only
  have hun : Within c s
      (if (s'.page p).inuse = (s'.page p).objects - 1 then s'.setCache c (unfull (s'.cache c) p)
      else s') := by
    split
    . exact h.setCache _
    . exact h
  split
  . exact (hun.setCache _).trimEmpty
  . exact hun

theorem foldl_pushGlobal (h : Within c s s') (objs : List Nat)
    : Within c s (objs.foldl (pushGlobal c) s') := by
  induction objs generalizing s' with
  | nil => exact h
  | cons _ _ ih => exact ih (h.setCache _)

end Within

theorem Ok.emptyCount_le (h : Ok s c batch) (hc : c < maxSlabOrder)
    : (s.cache c).emptyCount ≤ (s.deserted c).length := by
  rw [h.lists.emptyCount c hc]
  refine (List.subperm_of_subset (h.lists.nodup c hc .empty) ?_).length_le
  intro q hq
  obtain ⟨htaken, -, hclass, hkind⟩ := (h.lists.mem_iff c hc .empty q).mp hq
  simp only [State.deserted, List.mem_filter, decide_eq_true_eq]
  refine ⟨htaken, hclass, fun o ho hpage => ?_⟩
  have hpos := h.inuse_pos (some .live) nofun ho
  rw [hpage, inuse_of_empty hkind] at hpos
  cases hpos

theorem Ok.lost_trimEmpty (h : Ok s c batch) (hc : c < maxSlabOrder)
    (hroom : (s.deserted c).length ≤ emptyCacheLimit)
    : (SLAB.trimEmpty s c).lost = s.lost := by
  have hle := h.emptyCount_le hc
  unfold SLAB.trimEmpty
  simp only
  rw [if_neg (by omega)]

theorem Ok.trimEmpty (h : Ok s c batch) (hc : c < maxSlabOrder) : Ok (trimEmpty s c) c batch := by
  unfold SLAB.trimEmpty
  simp only
  split
  next =>
    split
    next => exact h
    next q rest hempty =>
      have hin : q ∈ (s.cache c).pages .empty := by simp [Cache.pages, hempty]
      obtain ⟨htaken, hlost, hclass, hkind⟩ := (h.lists.mem_iff c hc .empty q).mp hin
      have hlists := h.lists.lose hc hempty
      have haround : ({ s.setCache c
            { s.cache c with empty := rest, emptyCount := (s.cache c).emptyCount - 1 } with
          lost := q :: s.lost } : State).around batch = s.around batch := by
        funext pl
        rcases pl with _ | _ | _ | d | _
        . rfl
        . rfl
        . rfl
        . simp only [State.around, State.items, setCache_cache]
          split
          next heq => rw [heq]
          next => rfl
        . rfl
      refine ⟨⟨?_, ?_, ?_⟩, hlists, h.header, ?_, h.pool, ?_, h.magazine, h.large⟩
      . rw [haround]
        exact h.objects.apart
      . rw [haround]
        exact h.objects.slots
      . rw [haround]
        exact h.objects.holds
      . intro r hr
        cases List.mem_cons.mp hr with
        | inl heq =>
          rw [heq]
          exact ⟨htaken, inuse_of_empty hkind⟩
        | inr hin => exact h.lost r hin
      . apply globalFree_setCache _ h.globalFree
        exact h.globalFree c
  next => exact h

theorem OkWith.relist (h : OkWith kind s c batch) (hp : p ∈ s.taken) (hlost : p ∉ s.lost)
    (hclass : (s.page p).cache = c) (hlt : (s.page p).inuse < (s.page p).objects)
    (hkind : kind = update s.kinds p
      (if (s.page p).inuse + 1 = (s.page p).objects then .full else .part))
    : Ok (relist s c p) c batch
        ∧ ((s.deserted c).length ≤ emptyCacheLimit → (SLAB.relist s c p).lost = s.lost) := by
  have hc : c < maxSlabOrder := hclass ▸ (h.header p hp).cache
  -- first the page is on the partial list
  have hpart : OkWith (update s.kinds p .part)
      (if (s.page p).inuse = (s.page p).objects - 1 then s.setCache c (unfull (s.cache c) p) else s)
      c batch := by
    by_cases hfull : (s.page p).inuse + 1 = (s.page p).objects
    . rw [if_pos (by omega)]
      rw [if_pos hfull] at hkind
      have hlists := h.lists.unfull hc ⟨hp, hlost, hclass⟩ (by simp [hkind])
      rw [hkind, update_idem] at hlists
      exact h.setCache hlists rfl rfl
    . rw [if_neg (by omega)]
      rw [if_neg hfull] at hkind
      rw [← hkind]
      exact h
  generalize ht : (if (s.page p).inuse = (s.page p).objects - 1 then
    s.setCache c (unfull (s.cache c) p) else s) = t at hpart
  have hpage : t.page = s.page ∧ t.taken = s.taken ∧ t.lost = s.lost ∧ t.live = s.live := by
    rw [← ht]
    split
    . exact ⟨rfl, rfl, rfl, rfl⟩
    . exact ⟨rfl, rfl, rfl, rfl⟩
  have hkinds : t.kinds = s.kinds := by
    unfold State.kinds
    rw [hpage.1]
  unfold SLAB.relist
  simp only [ht]
  split
  next hzero =>
    have hlists := hpart.lists.toEmpty hc (p := p)
      ⟨hpage.2.1 ▸ hp, hpage.2.2.1 ▸ hlost, hpage.1 ▸ hclass⟩ (by simp)
    have hempty : s.kinds p = .empty := by simp [State.kinds, Page.kind, hzero]
    rw [update_idem, ← hempty, update_eq_self, ← hkinds] at hlists
    have hset : Ok (t.setCache c (toEmpty (t.cache c) p)) c batch := hpart.setCache hlists rfl rfl
    refine ⟨hset.trimEmpty hc, fun hroom => ?_⟩
    refine (hset.lost_trimEmpty hc ?_).trans hpage.2.2.1
    simp only [State.deserted, State.setCache, hpage]
    exact hroom
  next hpos =>
    have hmid : s.kinds p = .part := by
      simp [State.kinds, Page.kind, hpos, Nat.ne_of_lt hlt]
    rw [← hmid, update_eq_self, ← hkinds] at hpart
    exact ⟨hpart, fun _ => hpage.2.2.1⟩

/--
What a step of a drain of class `c` does besides keeping the invariant.
-/
structure Drained (c : Nat) (s s' : State) : Prop extends Within c s s' where
  magazines : s'.magazine = s.magazine
  lost : (s.deserted c).length ≤ emptyCacheLimit → s'.lost = s.lost

theorem Drained.trans {t : State} (h : Drained c s t) (h' : Drained c t s') : Drained c s s' := by
  refine ⟨h.toWithin.trans h'.toWithin, h'.magazines.trans h.magazines, fun hroom => ?_⟩
  rw [h'.lost (h.deserted c ▸ hroom), h.lost hroom]

theorem magazine_relist : (relist s c p).magazine = s.magazine := by
  have htrim : ∀ t, (trimEmpty t c).magazine = t.magazine := by
    intro t
    unfold trimEmpty
    simp only
    split
    . split <;> rfl
    . rfl
  unfold relist
  simp only
  split
  . rw [htrim]
    split <;> rfl
  . split <;> rfl

theorem Ok.putSlot (h : Ok s c (o :: batch))
    : ∃ s', putSlot s c o = some s' ∧ Ok s' c batch ∧ Drained c s s' := by
  obtain ⟨hp, hslot⟩ := h.page_of_mem none List.mem_cons_self
  have hclass := h.objects.of_mem_batch List.mem_cons_self
  have hheader := h.header _ hp
  have hpos := h.inuse_pos none nofun List.mem_cons_self
  have hinuse := hheader.inuse
  have hlost : pageOf o ∉ s.lost := by
    intro hin
    rw [(h.lost _ hin).2] at hpos
    cases hpos
  have hmagic : ¬ ((s.page (pageOf o)).magic ≠ slabPageMagic ∨ (s.page (pageOf o)).cache ≠ c) := by
    simp [hheader.magic, hclass]
  unfold SLAB.putSlot
  simp only [hmagic, if_false, Nat.ne_of_gt hpos]
  have hset : Within c s (s.setPage (pageOf o)
      { s.page (pageOf o) with
        freelist := o :: (s.page (pageOf o)).freelist
        inuse := (s.page (pageOf o)).inuse - 1 }) := by
    apply Within.refl.setPage
    rfl
  have hrelist := (h.pushSlot hlost (List.Perm.refl _)).relist hp hlost
    (by rwa [setPage_page, if_pos rfl])
    (by
      rw [setPage_page, if_pos rfl]
      simp only
      omega)
    (by
      rw [kinds_setPage, update_idem, setPage_page, if_pos rfl]
      simp only [Nat.sub_add_cancel hpos]
      -- what the list of the page was before
      have hkind : s.kinds (pageOf o)
          = if (s.page (pageOf o)).inuse = (s.page (pageOf o)).objects then .full else .part := by
        simp [State.kinds, Page.kind, Nat.ne_of_gt hpos]
      rw [← hkind, update_eq_self])
  refine ⟨_, rfl, hrelist.1, hset.relist, magazine_relist, fun hroom => ?_⟩
  exact hrelist.2 (hset.deserted c ▸ hroom)

theorem Ok.drainLoop {n : Nat} (h : Ok s c []) (pages : List Nat)
    : ∃ s', drainLoop c n s pages = some (pages, s') ∧ Ok s' c [] ∧ Drained c s s' := by
  induction n generalizing s with
  | zero => exact ⟨s, rfl, h, .refl, rfl, fun _ => rfl⟩
  | succ _ ih =>
    unfold SLAB.drainLoop
    simp only
    split
    next => exact ⟨s, rfl, h, .refl, rfl, fun _ => rfl⟩
    next obj rest hfree =>
      obtain ⟨t, hput, hok, hdrained⟩ := (h.popGlobal hfree (List.Perm.refl _)).putSlot
      obtain ⟨s', heq, hend, hrest⟩ := ih hok
      simp only [hput]
      have hpop : Drained c s (s.setCache c
          { s.cache c with
            globalFreeList := rest
            globalFreeCount := (s.cache c).globalFreeCount - 1 }) :=
        ⟨Within.refl.setCache _, rfl, fun _ => rfl⟩
      exact ⟨s', heq, hend, hpop.trans (hdrained.trans hrest)⟩

theorem foldl_pushGlobal_spec (objs : List Nat)
    : (objs.foldl (pushGlobal c) s).lost = s.lost
      ∧ (objs.foldl (pushGlobal c) s).magazine = s.magazine
      ∧ ((objs.foldl (pushGlobal c) s).cache c).globalFreeCount
        = (s.cache c).globalFreeCount + objs.length := by
  induction objs generalizing s with
  | nil => exact ⟨rfl, rfl, rfl⟩
  | cons obj _ ih =>
    obtain ⟨hlost, hmagazine, hcount⟩ := ih (s := pushGlobal c s obj)
    refine ⟨hlost, hmagazine, hcount.trans ?_⟩
    simp only [pushGlobal, setCache_cache_self, List.length_cons]
    omega

structure Flushed (c n : Nat) (s s' : State) : Prop extends Within c s s' where
  magazines : s'.magazine = s.magazine
  lost : s.Spares c n → s'.lost = s.lost
  count : (s.cache c).globalFreeCount + n < drainHighWatermark →
    (s'.cache c).globalFreeCount = (s.cache c).globalFreeCount + n

theorem Ok.slabFlushBatchAndRelease (h : Ok s c batch)
    : ∃ s', slabFlushBatchAndRelease s c batch = some s' ∧ Ok s' c []
      ∧ Flushed c batch.length s s' := by
  unfold SLAB.slabFlushBatchAndRelease
  split
  next hnil =>
    rw [hnil] at h ⊢
    exact ⟨s, rfl, h, .refl, rfl, fun _ => rfl, fun _ => rfl⟩
  next =>
    have hpush := Ok.foldl_pushGlobal [] h
    have hwithin := (Within.refl (c := c) (s := s)).foldl_pushGlobal batch
    obtain ⟨hlost, hmagazine, hcount⟩ := foldl_pushGlobal_spec (s := s) (c := c) batch
    -- the chain that comes back is always empty
    unfold drainGlobalFreeListLocked
    simp only [hcount]
    by_cases hlow : (s.cache c).globalFreeCount + batch.length < drainHighWatermark
    . simp only [if_pos hlow]
      exact ⟨_, rfl, hpush, hwithin, hmagazine, fun _ => hlost, fun _ => hcount⟩
    . obtain ⟨s', heq, hok, hdrained⟩ := hpush.drainLoop
        (n := (s.cache c).globalFreeCount + batch.length - drainLowWatermark) []
      simp only [if_neg hlow, heq]
      refine ⟨s', rfl, hok, hwithin.trans hdrained.toWithin, hdrained.magazines.trans hmagazine, ?_,
        fun hlt => absurd hlt hlow⟩
      intro hspares
      rw [hdrained.lost (hwithin.deserted c ▸ hspares.resolve_left hlow), hlost]

theorem popMagazine_spec (batch : List Nat) (n : Nat)
    (h : (s.magazine cpu c).count = (s.magazine cpu c).freelist.length)
    : Within c s (popMagazine cpu c n s batch).2
      ∧ (popMagazine cpu c n s batch).2.lost = s.lost
      ∧ (popMagazine cpu c n s batch).2.cache = s.cache
      ∧ (popMagazine cpu c n s batch).1.length ≤ batch.length + n
      ∧ (popMagazine cpu c n s batch).1.length
          + ((popMagazine cpu c n s batch).2.magazine cpu c).count
        = batch.length + (s.magazine cpu c).count := by
  induction n generalizing s batch with
  | zero => exact ⟨.refl, rfl, rfl, Nat.le_refl _, rfl⟩
  | succ _ ih =>
    simp only [popMagazine]
    split
    next => exact ⟨.refl, rfl, rfl, Nat.le_add_right _ _, rfl⟩
    next obj rest hm =>
      rw [hm, List.length_cons] at h
      have hset := setMagazine_magazine s cpu c ⟨rest, (s.magazine cpu c).count - 1⟩ cpu c
      rw [if_pos ⟨rfl, rfl⟩] at hset
      obtain ⟨hwithin, hlost, hcache, hle, hsum⟩ :=
        ih (s := s.setMagazine cpu c ⟨rest, (s.magazine cpu c).count - 1⟩) (batch ++ [obj])
          (by rw [hset, h, Nat.add_sub_cancel])
      rw [List.length_append, List.length_singleton] at hle hsum
      rw [hset] at hsum
      refine ⟨(Within.refl.setMagazine _).trans hwithin, hlost, hcache, by omega, ?_⟩
      simp only at hsum
      omega

theorem State.Spares.mono {n m : Nat} (h : s.Spares c n) (hm : m ≤ n) : s.Spares c m :=
  h.imp (fun hlt => by omega) id

theorem Ok.freeClass (h : Ok s c [o]) (cpu : Option Nat)
    : ∃ s', freeClass s c o cpu = some s' ∧ Ok s' c [] ∧ Within c s s'
        ∧ (s.Spares c slabBatch → s'.lost = s.lost) := by
  unfold SLAB.freeClass
  cases cpu with
  | none =>
    obtain ⟨s', heq, hok, hflushed⟩ := h.slabFlushBatchAndRelease
    exact ⟨s', heq, hok, hflushed.toWithin, fun hs => hflushed.lost (hs.mono (by simp [slabBatch]))⟩
  | some i =>
    have hnot : o ∉ (s.magazine i c).freelist.take (slabBatch * 2 + 2) := by
      intro hin
      have hin' : o ∈ s.around [o] (some (.magazine i c)) := List.mem_of_mem_take hin
      cases h.objects.apart.eq_of_mem none _ o List.mem_cons_self hin'
    simp only [hnot, if_false]
    have hpush := h.pushMagazine i (List.Perm.refl _)
    have hwithin : Within c s (SLAB.pushMagazine i c s o) := Within.refl.setMagazine _
    split
    . obtain ⟨hpop, hlost, hcache, hle, -⟩ :=
        popMagazine_spec [] slabBatch (hpush.magazine i c)
      obtain ⟨s', heq, hok, hflushed⟩ := (hpush.popMagazine i slabBatch).slabFlushBatchAndRelease
      refine ⟨s', heq, hok, (hwithin.trans hpop).trans hflushed.toWithin, fun hs => ?_⟩
      rw [List.length_nil, Nat.zero_add] at hle
      refine (hflushed.lost ?_).trans hlost
      refine State.Spares.mono ?_ hle
      unfold State.Spares at hs ⊢
      rw [hcache, (hwithin.trans hpop).deserted c]
      exact hs
    . exact ⟨_, rfl, hpush, hwithin, fun _ => rfl⟩

theorem Ok.freeLarge {b : Nat × Nat} (h : Ok s c []) (hb : b ∈ s.large)
    : ∃ s', freeLarge s b.1 (b.1 + sizeofSlabPage) = some s' ∧ Ok s' c [] ∧ s'.taken = s.taken
        ∧ s'.large ⊆ s.large ∧ s'.lost = s.lost := by
  have hp := (h.large b hb).1
  unfold SLAB.freeLarge
  simp only [ne_eq, not_true_eq_false, if_false]
  refine ⟨_, rfl, h.others (fun q hq => setPage_of_mem hp hq) rfl rfl rfl rfl rfl rfl ?_, rfl,
    fun _ ha => List.mem_of_mem_filter ha, rfl⟩
  intro a ha
  simp only [List.mem_filter, decide_eq_true_eq] at ha
  simp only [setPage_page, ha.2, if_false]
  exact h.large a ha.1

theorem headerSize_pos (hc : c < maxSlabOrder) : 0 < headerSize c := by
  simp only [maxSlabOrder] at hc
  interval_cases c <;> decide

theorem Ok.freeSmall (h : Ok s 0 []) (cpu : Option Nat) (hlive : o ∈ s.live)
    : ∃ s', free s o cpu = some s' ∧ Ok s' 0 []
        ∧ Within (s.page (pageOf o)).cache { s with live := s.live.erase o } s'
        ∧ (({ s with live := s.live.erase o } : State).Spares (s.page (pageOf o)).cache slabBatch →
          s'.lost = s.lost) := by
  obtain ⟨hp, hslot⟩ := h.page_of_mem_live hlive
  have hheader := h.header _ hp
  have hbounds := slot_bounds hheader.cache hslot
  have hmagic : ¬ slabPageMagic = largePageMagic := by decide
  have hzero : o ≠ 0 := by
    have hpos := headerSize_pos hheader.cache
    omega
  have hoff : ¬ (o - pageOf o < headerSize (s.page (pageOf o)).cache
      ∨ (o - pageOf o - headerSize (s.page (pageOf o)).cache)
        % objSize (s.page (pageOf o)).cache ≠ 0) := by
    rintro (hlt | hmod)
    . omega
    . exact hmod hbounds.2.2
  unfold SLAB.free
  simp only [hzero, hheader.magic, hmagic, ne_eq, not_true_eq_false, if_false, if_neg hoff]
  obtain ⟨s', heq, hok, hwithin, hlost⟩ := (h.takeBack hlive).freeClass cpu
  exact ⟨s', heq, hok.cast 0, hwithin, hlost⟩

theorem Ok.free (h : Ok s 0 []) (cpu : Option Nat)
    (ho : o = 0 ∨ o ∈ s.live ∨ ∃ b ∈ s.large, o = b.1 + sizeofSlabPage)
    : ∃ s', free s o cpu = some s' ∧ Ok s' 0 [] ∧ s'.taken = s.taken ∧ s'.large ⊆ s.large
        ∧ ((o ∈ s.live →
            ({ s with live := s.live.erase o } : State).Spares
            (s.page (pageOf o)).cache slabBatch) →
          s'.lost = s.lost) := by
  by_cases hlive : o ∈ s.live
  . obtain ⟨s', heq, hok, hwithin, hlost⟩ := h.freeSmall cpu hlive
    exact ⟨s', heq, hok, hwithin.taken, by simp [hwithin.large], fun hs => hlost (hs hlive)⟩
  . unfold SLAB.free
    rcases ho with rfl | hin | ⟨b, hb, rfl⟩
    . exact ⟨s, rfl, h, rfl, fun _ hb => hb, fun _ => rfl⟩
    . exact absurd hin hlive
    . have hold := h.large b hb
      have hzero : b.1 + sizeofSlabPage ≠ 0 := by simp [sizeofSlabPage]
      simp only [hzero, if_false, pageOf_header hold.2.1, hold.2.2, if_true]
      obtain ⟨s', heq, hok, htaken, hlarge, hlost⟩ := h.freeLarge hb
      exact ⟨s', heq, hok, htaken, hlarge, fun _ => hlost⟩

theorem Ok.drainMagazine (h : Ok s c []) (cpu fuel : Nat)
    : ∃ s', drainMagazine cpu c fuel s = some s' ∧ Ok s' c [] ∧ Within c s s'
        ∧ (s.Spares c (s.magazine cpu c).count → s'.lost = s.lost) := by
  induction fuel generalizing s with
  | zero => exact ⟨s, rfl, h, .refl, fun _ => rfl⟩
  | succ _ ih =>
    unfold SLAB.drainMagazine
    split
    next =>
      obtain ⟨hpop, hlost, hcache, -, hsum⟩ :=
        popMagazine_spec [] (min slabBatch (s.magazine cpu c).count) (h.magazine cpu c)
      obtain ⟨t, hflush, hok, hflushed⟩ :=
        (h.popMagazine cpu (min slabBatch (s.magazine cpu c).count)).slabFlushBatchAndRelease
      obtain ⟨s', heq, hend, hwithin, hrest⟩ := ih hok
      simp only [hflush]
      refine ⟨s', heq, hend, (hpop.trans hflushed.toWithin).trans hwithin, fun hs => ?_⟩
      rw [List.length_nil, Nat.zero_add] at hsum
      have hdeserted := hpop.deserted c
      have hflushes : (SLAB.popMagazine cpu c
        (min slabBatch (s.magazine cpu c).count) s []).2.Spares c
          (SLAB.popMagazine cpu c (min slabBatch (s.magazine cpu c).count) s []).1.length := by
        unfold State.Spares
        rw [hcache, hdeserted]
        exact hs.mono (by omega)
      rw [hrest, hflushed.lost hflushes, hlost]
      -- the objects that are left in the magazine are those that were there without the batch
      unfold State.Spares
      rw [hflushed.deserted, hdeserted, hflushed.magazines]
      refine hs.imp_left fun hlt => ?_
      rw [hflushed.count (by rw [hcache]; omega), hcache]
      omega
    next => exact ⟨s, rfl, h, .refl, fun _ => rfl⟩

theorem Ok.drainClasses {classes : List Nat} (h : Ok s 0 []) (hnodup : classes.Nodup)
    : ∃ s', drainClasses cpu classes s = some s' ∧ Ok s' 0 []
        ∧ s'.live = s.live ∧ s'.taken = s.taken ∧ s'.large = s.large
        ∧ ((∀ c ∈ classes, s.Spares c (s.magazine cpu c).count) → s'.lost = s.lost) := by
  induction classes generalizing s with
  | nil => exact ⟨s, rfl, h, rfl, rfl, rfl, fun _ => rfl⟩
  | cons c rest ih =>
    rw [List.nodup_cons] at hnodup
    unfold SLAB.drainClasses
    obtain ⟨t, hdrain, hok, hwithin, hlost⟩ := (h.cast c).drainMagazine cpu (s.magazine cpu c).count
    obtain ⟨s', heq, hend, hlive, htaken, hlarge, hrest⟩ := ih (hok.cast 0) hnodup.2
    simp only [hdrain]
    refine ⟨s', heq, hend, hlive.trans hwithin.live, htaken.trans hwithin.taken,
      hlarge.trans hwithin.large, fun hs => ?_⟩
    rw [hrest, hlost (hs c List.mem_cons_self)]
    intro d hd
    have hne : d ≠ c := fun heq => hnodup.1 (heq ▸ hd)
    have hold := hs d (List.mem_cons_of_mem c hd)
    unfold State.Spares at hold ⊢
    rw [hwithin.cache d hne, hwithin.magazine cpu d hne, hwithin.deserted d]
    exact hold

end SLAB
