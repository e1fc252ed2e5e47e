import Skyline.VMM.Impl.Space

/-!
This module contains what the operations on page tables leave alone.
-/

namespace VMM

structure PagingOnly (s s' : State) : Prop where
  rest : s' = { s with
    pmm := s'.pmm
    pagemap := s'.pagemap
    rcTree := s'.rcTree
    heap := s'.heap
    freed := s'.freed }
  pagemap : ∀ (a : Nat), s'.pagemap a = { s.pagemap a with entries := (s'.pagemap a).entries }

variable {n pm vaddr k parent child : Nat} {ptr : Option Nat} {flags : BitVec 64} {ok : Bool}

namespace PagingOnly

variable {s s' s1 s2 s3 : State}

theorem refl (s : State) : PagingOnly s s :=
  ⟨rfl, fun _ => rfl⟩

theorem trans (h1 : PagingOnly s1 s2) (h2 : PagingOnly s2 s3) : PagingOnly s1 s3 where
  rest := by rw [h2.rest, h1.rest]
  pagemap := fun a => by rw [h2.pagemap a, h1.pagemap a]

theorem of_rest (h : s' = { s with
    pmm := s'.pmm
    rcTree := s'.rcTree
    heap := s'.heap
    freed := s'.freed }) : PagingOnly s s' := by
  constructor
  . rw [h]
  . intro a
    rw [h]

theorem setEntries (s : State) (pm : Nat) (entries : Nat → Entry)
    : PagingOnly s (s.setEntries pm entries) := by
  refine ⟨rfl, fun a => ?_⟩
  simp only [State.setEntries, State.setPagemap]
  split
  next heq => rw [heq]
  next => rfl

theorem handOut {res : Option Nat × PMM.State}
    (h : handOut s n res = .ok (ptr, s')) : PagingOnly s s' := by
  unfold VMM.handOut at h
  split at h
  next =>
    cases h
    exact of_rest rfl
  next =>
    split at h
    next => cases h
    next =>
      cases h
      exact of_rest rfl

theorem requestUnchecked {ptr : Nat} (h : requestUnchecked s = .ok (ptr, s'))
    : PagingOnly s s' := by
  unfold VMM.requestUnchecked at h
  split at h
  next => cases h
  next => cases h
  next ptr' t ht =>
    cases h
    exact handOut ht

theorem pmmFree (s : State) (ptr : Nat) : PagingOnly s (pmmFree s ptr) :=
  of_rest rfl

theorem setCount (s : State) (phys : Nat) (count : Option Nat)
    : PagingOnly s (setCount s phys count) :=
  of_rest rfl

theorem unmapNoFlush (s : State) (pm vaddr : Nat) : PagingOnly s (unmapNoFlush s pm vaddr) :=
  setEntries s pm _

theorem setEntry (s : State) (pm k vaddr : Nat) (x : Entry)
    : PagingOnly s (setEntry s pm k vaddr x) :=
  setEntries s pm _

theorem newLevel (h : newLevel s pm vaddr k = .ok s') : PagingOnly s s' := by
  unfold VMM.newLevel at h
  split at h
  next =>
    cases h
    exact refl s
  next => cases h
  next =>
    obtain ⟨⟨frame, t⟩, ht, h⟩ := bind_ok.mp h
    cases h
    exact (requestUnchecked ht).trans (setEntry _ _ _ _ _)

theorem newLevels (h : newLevels s pm vaddr k n = .ok s') : PagingOnly s s' := by
  induction n generalizing s with
  | zero =>
    simp only [VMM.newLevels, Except.ok.injEq] at h
    exact h ▸ refl s
  | succ _ ih =>
    obtain ⟨t, ht, h⟩ := bind_ok.mp h
    exact (newLevel ht).trans (ih h)

theorem mapPage {height paddr : Nat}
    (h : mapPage s height pm vaddr paddr flags = .ok s') : PagingOnly s s' := by
  obtain ⟨t, ht, h⟩ := bind_ok.mp h
  cases h
  exact (newLevels ht).trans (setEntry _ _ _ _ _)

theorem unrefSharedPhys (s : State) (phys : Nat) : PagingOnly s (unrefSharedPhys s phys) := by
  unfold VMM.unrefSharedPhys refDecPhys
  split
  next t ht =>
    split at ht
    next =>
      cases ht
      exact pmmFree s phys
    next =>
      simp only at ht
      split at ht
      next =>
        cases ht
        exact (setCount s phys none).trans (pmmFree _ _)
      next => cases ht
  next t ht =>
    split at ht
    next => cases ht
    next =>
      simp only at ht
      split at ht
      next => cases ht
      next =>
        cases ht
        exact setCount s phys _

theorem refSharedPhys (s : State) (phys : Nat) : PagingOnly s (refSharedPhys s phys).2 := by
  unfold VMM.refSharedPhys kmalloc
  split
  next t ht =>
    split at ht
    next => cases ht
    next =>
      cases ht
      exact of_rest rfl
  next t ht =>
    have hs : PagingOnly s t := by
      split at ht
      next =>
        cases ht
        exact refl s
      next =>
        cases ht
        exact of_rest rfl
    split
    next => exact hs.trans (setCount _ _ _)
    next => exact hs.trans (setCount _ _ _)

theorem refPages (s : State) (phys n : Nat) : PagingOnly s (refPages s phys n).2 := by
  induction n generalizing s phys with
  | zero => exact refl s
  | succ _ ih =>
    have hs := refSharedPhys s phys
    unfold VMM.refPages
    split
    next t ht =>
      rw [ht] at hs
      exact hs
    next t ht =>
      rw [ht] at hs
      exact hs.trans (ih t (phys + 4096))

theorem unrefPages (s : State) (phys n : Nat)
    : PagingOnly s (Loop.forRange (fun k s => VMM.unrefSharedPhys s (phys + k * 4096)) 0 n s) := by
  apply Loop.forRange_keeps _ (fun t => PagingOnly s t) 0 n s (refl s)
  intro k t ht
  exact ht.trans (unrefSharedPhys t _)

theorem freeSharedRegion (s : State) (pm start stop : Nat)
    : PagingOnly s (freeSharedRegion s pm start stop) := by
  apply Loop.whileDo_keeps _ (fun acc => PagingOnly s acc.2) _ (start, s) (refl s)
  rintro ⟨v, t⟩ ht
  simp only [freeSharedRegion.freeSharedPage]
  split
  next =>
    split
    next => exact ht
    next => exact (ht.trans (unmapNoFlush t pm v)).trans (unrefPages _ _ _)
  next => exact ht

theorem flushBatch (s : State) (physList : List Nat) : PagingOnly s (flushBatch s physList) := by
  induction physList generalizing s with
  | nil => exact refl s
  | cons phys _ ih => exact (pmmFree s phys).trans (ih _)

theorem pushPhys (acc : List Nat × State) (phys : Nat)
    : PagingOnly acc.2 (pushPhys acc phys).2 := by
  obtain ⟨physList, s⟩ := acc
  simp only [VMM.pushPhys]
  split
  next => exact flushBatch _ _
  next => exact refl _

theorem pushAll (f : Nat → Nat) (n : Nat) (acc : List Nat × State)
    : PagingOnly acc.2 (Loop.forRange (fun j acc => VMM.pushPhys acc (f j)) 0 n acc).2 := by
  apply Loop.forRange_keeps _ (fun acc' => PagingOnly acc.2 acc'.2) 0 n acc (refl _)
  intro j acc' h
  exact h.trans (pushPhys acc' _)

theorem freeOwnedRegion (s : State) (pm start stop : Nat)
    : PagingOnly s (freeOwnedRegion s pm start stop) := by
  unfold VMM.freeOwnedRegion
  have hloop := Loop.whileDo_keeps (freeOwnedRegion.freeOwnedPage pm stop)
    (fun acc => PagingOnly s acc.2.2) ((stop - start) / 4096 + 2) (start, [], s) (refl s) ?_
  . exact hloop.trans (flushBatch _ _)
  . rintro ⟨v, physList, t⟩ ht
    simp only [freeOwnedRegion.freeOwnedPage]
    split
    next =>
      split
      next => exact ht
      next =>
        split
        next =>
          split
          next =>
            have hpush := pushPhys (physList, t) (getPageInfo t pm v).phys
            exact ((ht.trans hpush).trans (unmapNoFlush _ pm v)).trans (unmapNoFlush _ pm _)
          next =>
            have hpush := pushAll (fun j => (getPageInfo t pm v).phys + j * 2097152) 512
              (physList, t)
            exact (ht.trans hpush).trans (unmapNoFlush _ pm v)
        next =>
          have hpush := pushPhys (physList, t) (getPageInfo t pm v).phys
          exact (ht.trans hpush).trans (unmapNoFlush _ pm v)
    next => exact ht

theorem freeRegion (s : State) (pm : Nat) (r : Region) : PagingOnly s (freeRegion s pm r) := by
  unfold VMM.freeRegion
  split
  next => exact freeSharedRegion _ _ _ _
  next => exact freeOwnedRegion _ _ _ _

theorem freePageTables (level : Nat) (entries : Nat → Entry) (s : State)
    : PagingOnly s (freePageTables level entries s) := by
  induction level generalizing entries s with
  | zero => exact refl s
  | succ level ih =>
    cases level with
    | zero => exact refl s
    | succ =>
      unfold VMM.freePageTables
      apply Loop.forRange_keeps _ (fun t => PagingOnly s t) 0 256 s (refl s)
      intro i t ht
      split
      next frame below _ => exact (ht.trans (ih below t)).trans (pmmFree _ _)
      next => exact ht

theorem requestIf {cond : Prop} [Decidable cond] {res : State → Option Nat × PMM.State}
    (h : requestIf cond (fun s => VMM.handOut s n (res s)) s = .ok (ptr, s'))
    : PagingOnly s s' := by
  unfold VMM.requestIf at h
  split at h
  next => exact handOut h
  next =>
    cases h
    exact refl s

theorem allocPages {addr pc mapped : Nat}
    (h : allocPages s pm addr pc flags = .ok (mapped, s')) : PagingOnly s s' := by
  apply Loop.whileDoE_keeps _ (fun acc => PagingOnly s acc.2) _ (0, s) _ h (refl s)
  rintro ⟨n, t⟩ ⟨n', t'⟩ more ht hbody
  simp only [allocPages.allocPage] at hbody ht ⊢
  split at hbody
  next =>
    obtain ⟨⟨p, t1⟩, h1, hbody⟩ := bind_ok.mp hbody
    have ht1 : PagingOnly t t1 := requestIf h1
    simp only at hbody
    split at hbody
    next =>
      obtain ⟨t2, h2, hbody⟩ := bind_ok.mp hbody
      obtain ⟨t3, h3, hbody⟩ := bind_ok.mp hbody
      cases hbody
      exact ((ht.trans ht1).trans (mapPage h2)).trans (mapPage h3)
    next =>
      obtain ⟨⟨p, t2⟩, h2, hbody⟩ := bind_ok.mp hbody
      have ht2 : PagingOnly t1 t2 := requestIf h2
      simp only at hbody
      split at hbody
      next =>
        obtain ⟨t3, h3, hbody⟩ := bind_ok.mp hbody
        cases hbody
        exact ((ht.trans ht1).trans ht2).trans (mapPage h3)
      next =>
        obtain ⟨⟨p, t3⟩, h3, hbody⟩ := bind_ok.mp hbody
        have ht3 : PagingOnly t2 t3 := handOut h3
        simp only at hbody
        split at hbody
        next =>
          obtain ⟨t4, h4, hbody⟩ := bind_ok.mp hbody
          cases hbody
          exact (((ht.trans ht1).trans ht2).trans ht3).trans (mapPage h4)
        next =>
          cases hbody
          exact ((ht.trans ht1).trans ht2).trans ht3
  next =>
    cases hbody
    exact ht

theorem forkPage {v : Nat} {info : PageInfo}
    (h : forkPage s parent child v info = .ok (ok, s')) : PagingOnly s s' := by
  obtain ⟨t1, h1, h⟩ := bind_ok.mp h
  obtain ⟨t2, h2, h⟩ := bind_ok.mp h
  have hrefs := refPages t2 info.phys (info.size / 4096)
  have hbefore := ((mapPage h1).trans (mapPage h2)).trans hrefs
  simp only at h
  split at h
  next =>
    obtain ⟨t4, h4, h⟩ := bind_ok.mp h
    cases h
    have hundo := unrefPages (VMM.refPages t2 info.phys (info.size / 4096)).2 info.phys
      (VMM.refPages t2 info.phys (info.size / 4096)).1
    have hchild := (hbefore.trans hundo).trans (unmapNoFlush _ child v)
    exact (hchild.trans (unmapNoFlush _ parent v)).trans (mapPage h4)
  next =>
    cases h
    exact hbefore

theorem forkPages {r : Region}
    (h : forkPages s parent child r = .ok (ok, s')) : PagingOnly s s' := by
  obtain ⟨⟨v, mapped, ok', t⟩, hloop, h⟩ := bind_ok.mp h
  cases h
  refine Loop.whileDoE_keeps _ (fun acc => PagingOnly s acc.2.2.2) _ _ _ hloop (refl s) ?_
  rintro ⟨v, mapped, ok, t⟩ ⟨v', mapped', ok', t'⟩ more ht hbody
  simp only [forkPages.next] at hbody ht ⊢
  split at hbody
  next =>
    split at hbody
    next =>
      cases hbody
      exact ht
    next =>
      obtain ⟨⟨ok1, t1⟩, h1, hbody⟩ := bind_ok.mp hbody
      have ht1 := forkPage h1
      cases ok1 with
      | false =>
        cases hbody
        exact ht.trans ht1
      | true =>
        cases hbody
        exact ht.trans ht1
  next =>
    cases hbody
    exact ht

end PagingOnly

end VMM
