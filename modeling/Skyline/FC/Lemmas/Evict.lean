import Skyline.FC.Lemmas.Moves

/-!
This module contains that the functions which look for victims only make plain moves.
-/

namespace FC

open Function

structure Fewer (s s' : State) : Prop where
  entry : s'.entry = s.entry
  held : s'.held = s.held
  flushed : s'.flushed = s.flushed
  loose : s'.loose = s.loose
  next : s'.next = s.next
  ncpu : s'.ncpu = s.ncpu
  task : s'.task = s.task
  lru : ∀ c, ∀ p ∈ (s'.cache c).lru, p ∈ (s.cache c).lru
  lookup : ∀ c k, (s.cache c).index.lookup k = none → (s'.cache c).index.lookup k = none
  cb : ∀ c, (s'.cache c).writebackCb = (s.cache c).writebackCb
  history : ∃ frees, s'.history = { s.history with frees }

namespace Fewer

variable {s s' s'' : State} {c : Nat} {p : Ptr}

theorem refl (s : State) : Fewer s s :=
  ⟨rfl, rfl, rfl, rfl, rfl, rfl, rfl, fun _ _ h => h, fun _ _ h => h, fun _ => rfl, _, rfl⟩

theorem trans (h : Fewer s s') (h' : Fewer s' s'') : Fewer s s'' where
  entry := h'.entry.trans h.entry
  held := h'.held.trans h.held
  flushed := h'.flushed.trans h.flushed
  loose := h'.loose.trans h.loose
  next := h'.next.trans h.next
  ncpu := h'.ncpu.trans h.ncpu
  task := h'.task.trans h.task
  lru c p hp := h.lru c p (h'.lru c p hp)
  lookup c k hk := h'.lookup c k (h.lookup c k hk)
  cb c := (h'.cb c).trans (h.cb c)
  history := by
    obtain ⟨f, hf⟩ := h.history
    obtain ⟨f', hf'⟩ := h'.history
    refine ⟨f', ?_⟩
    rw [hf', hf]

theorem tune {g : Cache → Cache} (h : (s.cache c).Same (g (s.cache c)))
    : Fewer s (s.modCache c g) := by
  refine ⟨rfl, rfl, rfl, rfl, rfl, rfl, rfl, ?_, ?_, ?_, _, rfl⟩
  . intro d p hp
    by_cases hd : d = c
    . rw [hd, State.modCache_cache, update_self, h.lru.mem_iff] at hp
      rwa [hd]
    . rwa [State.modCache_cache, update_of_ne hd] at hp
  . intro d k hk
    by_cases hd : d = c
    . rw [hd] at hk ⊢
      rwa [State.modCache_cache, update_self, h.index]
    . rwa [State.modCache_cache, update_of_ne hd]
  . intro d
    by_cases hd : d = c
    . rw [hd, State.modCache_cache, update_self, h.cb]
    . rw [State.modCache_cache, update_of_ne hd]

theorem remove (s : State) (c : Nat) (p : Ptr) (dirty : Bool)
    : Fewer s ((s.unlink c p dirty).fcEntryFree p) := by
  have hself : ((s.unlink c p dirty).fcEntryFree p).cache c = (s.cache c).unlink p
      (s.entry p) dirty :=
    update_self ..
  have hother : ∀ d, d ≠ c → ((s.unlink c p dirty).fcEntryFree p).cache d = s.cache d := by
    intro d hd
    exact update_of_ne hd _ _
  refine ⟨rfl, rfl, rfl, ?_, rfl, rfl, rfl, ?_, ?_, ?_, _, rfl⟩
  . exact List.erase_cons_head ..
  . intro d q hq
    by_cases hd : d = c
    . rw [hd, hself] at hq
      rw [hd]
      exact List.mem_of_mem_erase hq
    . rwa [hother d hd] at hq
  . intro d k hk
    by_cases hd : d = c
    . rw [hd] at hk ⊢
      rw [hself]
      by_cases hkey : k = (s.entry p).key
      . rw [hkey]
        apply AList.lookup_erase
      . rw [← hk]
        exact AList.lookup_erase_ne hkey
    . rwa [hother d hd]
  . intro d
    by_cases hd : d = c
    . rw [hd, hself]
      rfl
    . rw [hother d hd]

end Fewer

structure Evicts (s s' : State) : Prop where
  moves : Moves Plain s s'
  fewer : Fewer s s'

namespace Evicts

variable {s s' s'' : State} {c : Nat} {p : Ptr}

theorem refl (s : State) : Evicts s s := ⟨.refl, .refl s⟩

theorem trans (h : Evicts s s') (h' : Evicts s' s'') : Evicts s s'' :=
  ⟨h.moves.trans h'.moves, h.fewer.trans h'.fewer⟩

theorem tune {g : Cache → Cache} (h : (s.cache c).Same (g (s.cache c)))
    : Evicts s (s.modCache c g) :=
  ⟨.single rfl (.tune c g h), .tune h⟩

theorem remove (dirty : Bool) (hp : p ∈ (s.cache c).lru) (hpin : (s.entry p).pinCount = 0)
    (hclean : (s.entry p).isDirty = false) : Evicts s ((s.unlink c p dirty).fcEntryFree p) :=
  ⟨.single rfl (.remove c p dirty hp hpin hclean), .remove s c p dirty⟩

end Evicts

namespace Ok

variable {s : State} {c : Nat} {p : Ptr}

theorem clean_of_pending (h : Ok s) (hp : p ∈ (s.cache c).lru)
    (hpending : (s.entry p).pendingReclaim)
    (hpin : (s.entry p).pinCount = 0) : (s.entry p).isDirty = false := by
  have hnot := h.not_held hp hpin
  by_contra hdirty
  rw [Bool.not_eq_false] at hdirty
  have hsound := (h.entries c p hp).sound hdirty hnot.1
  rw [hsound.2] at hpending
  cases hpending

end Ok

structure Picked (s : State) (c : Nat) (r : State × Option Ptr) : Prop where
  none : r.2 = none → Evicts s r.1
  some : ∀ p, r.2 = some p → ∃ s₁, Evicts s s₁ ∧ r.1 = s₁.unlink c p false ∧ p ∈ (s₁.cache c).lru
    ∧ (s₁.entry p).pinCount = 0 ∧ (s₁.entry p).isDirty = false

namespace State

variable {s : State} {c : Nat}

theorem picked_unlink {p : Ptr} (s₁ : State) (h : Evicts s s₁) (hp : p ∈ (s₁.cache c).lru)
    (hpin : (s₁.entry p).pinCount = 0) (hclean : (s₁.entry p).isDirty = false)
    : Picked s c (s₁.unlink c p false, Option.some p) where
  none hnone := by cases hnone
  some q hq := by
    cases hq
    exact ⟨s₁, h, rfl, hp, hpin, hclean⟩

theorem picked_none (s₁ : State) (h : Evicts s s₁) : Picked s c (s₁, Option.none) where
  none _ := h
  some _ hq := by cases hq

theorem evicts_evictMiss : Evicts s (s.modCache c Cache.evictMiss) :=
  .tune ⟨rfl, .refl _, rfl, rfl, rfl, rfl, rfl, rfl, fun _ => .inl⟩

theorem evicts_evictHit : Evicts s (s.modCache c Cache.evictHit) :=
  .tune ⟨rfl, .refl _, rfl, rfl, rfl, rfl, rfl, rfl, fun _ => .inl⟩

theorem mem_modCache {g : Cache → Cache} {p : Ptr} (h : (g (s.cache c)).lru = (s.cache c).lru)
    : p ∈ ((s.modCache c g).cache c).lru ↔ p ∈ (s.cache c).lru := by
  rw [modCache_cache, update_self, h]

theorem fcPickAndUnlinkVictim.stop_picked (h : Ok s) (hit : Bool) (fallback : Option Ptr)
    (hfallback : ∀ p, fallback = some p → p ∈ (s.cache c).lru ∧ (s.entry p).idle)
    : Picked s c (fcPickAndUnlinkVictim.go.stop c hit fallback s) := by
  unfold fcPickAndUnlinkVictim.go.stop
  split
  . next p =>
    obtain ⟨hp, hidle⟩ := hfallback p rfl
    rw [Entry.idle_iff] at hidle
    have hp' := (mem_modCache (g := Cache.evictMiss) rfl).mpr hp
    have hhas := (h.moves evicts_evictMiss.moves).has hp'
    dsimp only
    rw [if_pos hhas]
    exact picked_unlink _ evicts_evictMiss hp' hidle.1 hidle.2.2
  . exact picked_none s (.refl s)

theorem fcPickAndUnlinkVictim.go_picked (h : Ok s) (l : List Ptr)
    (hl : ∀ p ∈ l, p ∈ (s.cache c).lru) (hit : Bool) (fallback : Option Ptr) (scanCnt : UInt32)
    (hfallback : ∀ p, fallback = some p → p ∈ (s.cache c).lru ∧ (s.entry p).idle)
    : Picked s c (fcPickAndUnlinkVictim.go c hit fallback scanCnt s l) := by
  induction l generalizing hit fallback scanCnt with
  | nil => exact stop_picked h hit fallback hfallback
  | cons cur _ ih =>
    have hcur := hl cur List.mem_cons_self
    have ih := ih fun p hp => hl p (List.mem_cons_of_mem _ hp)
    unfold go
    dsimp only
    split
    . exact stop_picked h hit fallback hfallback
    split
    . next hpending =>
      rw [if_pos (h.has hcur)]
      exact picked_unlink s (.refl s) hcur hpending.2
        (h.clean_of_pending hcur hpending.1 hpending.2)
    split
    . next hidle =>
      have hfallback' : ∀ p, (if oscillating (s.cache c) (s.entry cur) = false
          ∧ ¬(s.cache c).clock - (s.entry cur).createTick < 100 ∧ fallback = none then some cur
          else fallback) = some p → p ∈ (s.cache c).lru ∧ (s.entry p).idle := by
        intro p hp
        split at hp
        . cases hp
          exact ⟨hcur, hidle⟩
        . exact hfallback p hp
      split
      . have hcur' := (mem_modCache (g := Cache.evictHit) rfl).mpr hcur
        have hhas := (h.moves evicts_evictHit.moves).has hcur'
        rw [if_pos hhas]
        rw [Entry.idle_iff] at hidle
        exact picked_unlink _ evicts_evictHit hcur' hidle.1 hidle.2.2
      . exact ih hit _ _ hfallback'
    . exact ih hit fallback scanCnt hfallback

theorem fcEntryFree_modCache (s : State) (c : Nat) (g : Cache → Cache) (p : Ptr)
    : (s.modCache c g).fcEntryFree p = (s.fcEntryFree p).modCache c g := rfl

theorem evict_evicts (h : Ok s) (c : Nat) : Evicts s (s.evict c).1 := by
  have hpicked : Picked s c (s.fcPickAndUnlinkVictim c) := by
    apply fcPickAndUnlinkVictim.go_picked h
    . intro p hp
      exact hp
    . intro p hp
      cases hp
  unfold evict
  split
  next s' p hpick =>
    rw [hpick] at hpicked
    obtain ⟨s₁, hevicts, rfl, hp, hpin, hclean⟩ := hpicked.some p rfl
    have hremove := hevicts.trans (.remove false hp hpin hclean)
    dsimp only
    rw [fcEntryFree_modCache]
    apply hremove.trans
    apply Evicts.tune
    exact ⟨rfl, .refl _, rfl, rfl, rfl, rfl, rfl, rfl, fun _ => .inl⟩
  next s' hpick =>
    rw [hpick] at hpicked
    exact hpicked.none rfl

theorem reclaim_evicts (h : Ok s) (c pages : Nat) : Evicts s (s.reclaim c pages) := by
  induction pages generalizing s with
  | zero => exact .refl s
  | succ _ ih =>
    have hevict := evict_evicts h c
    unfold reclaim
    split
    next s' heq =>
      rw [heq] at hevict
      exact hevict.trans (ih (h.moves hevict.moves))
    next s' heq =>
      rw [heq] at hevict
      exact hevict

theorem fcTryEvictForSpace_evicts (h : Ok s) (c : Nat) (needSpace : UInt64) (n : Nat)
    : Evicts s (s.fcTryEvictForSpace c needSpace n) := by
  induction n generalizing s with
  | zero => exact .refl s
  | succ _ ih =>
    have hevict := evict_evicts h c
    unfold fcTryEvictForSpace
    split
    . split
      next s' heq =>
        rw [heq] at hevict
        exact hevict.trans (ih (h.moves hevict.moves))
      next s' heq =>
        rw [heq] at hevict
        exact hevict
    . exact .refl s

end State

end FC
