import Skyline.SLAB.Lemmas.Lists

/-!
This module contains what happens to the invariant when an object leaves or comes to the free list
of its page.
-/

namespace SLAB

open Function

variable {s s' : State} {c p o : Nat} {kind kind' : Nat → Kind}
  {batch batch' rest answers answers' : List Nat}

theorem around_setPage {pg : Page} {k : Option Place} (hk : k ≠ some (.page p)) (hnone : k ≠ none)
    : (s.setPage p pg).around batch' k = s.around batch k := by
  rcases k with _ | _ | _ | _ | q
  . exact absurd rfl hnone
  . rfl
  . rfl
  . rfl
  . have hne : q ≠ p := by
      intro heq
      rw [heq] at hk
      exact hk rfl
    have hpage : (s.setPage p pg).page q = s.page q := by rw [setPage_page, if_neg hne]
    simp only [State.around, State.items, hpage]
    rfl

theorem around_page (hp : p ∈ s.taken) : s.around batch (some (.page p)) = (s.page p).freelist := by
  simp [State.around, State.items, hp]

theorem around_setPage_self {pg : Page} (hp : p ∈ s.taken)
    : (s.setPage p pg).around batch (some (.page p)) = pg.freelist := by
  rw [around_page (s := s.setPage p pg) hp, setPage_page, if_pos rfl]

namespace OkWith

theorem setPage {pg : Page} (h : OkWith kind s c batch) (hp : p ∈ s.taken) (hlost : p ∉ s.lost)
    (hcache : pg.cache = (s.page p).cache) (hheader : Header pg p)
    (hobjects : Objects (s.setPage p pg) c batch')
    : OkWith kind (s.setPage p pg) c batch' := by
  have hother : ∀ q, q ≠ p → (s.setPage p pg).page q = s.page q := by
    intro q hq
    rw [setPage_page, if_neg hq]
  refine ⟨hobjects, h.lists.setPage hcache, ?_, ?_, h.pool, h.globalFree, h.magazine, ?_⟩
  . intro q hq
    by_cases heq : q = p
    . rw [heq, setPage_page, if_pos rfl]
      exact hheader
    . rw [hother q heq]
      exact h.header q hq
  . intro q hq
    rw [hother q (fun heq => hlost (heq ▸ hq))]
    exact h.lost q hq
  . intro b hb
    have hne : b.1 ≠ p := fun heq => (h.large b hb).1 (heq ▸ hp)
    rw [hother b.1 hne]
    exact h.large b hb

theorem setCache {k : Cache} (h : OkWith kind s c batch) (hlists : Lists (s.setCache c k) kind')
    (hfree : k.globalFreeList = (s.cache c).globalFreeList)
    (hcount : k.globalFreeCount = (s.cache c).globalFreeCount)
    : OkWith kind' (s.setCache c k) c batch := by
  have haround : (s.setCache c k).around batch = s.around batch := by
    funext pl
    by_cases hnone : pl = none
    . rw [hnone]
      rfl
    . by_cases hpl : pl = some (.globalFree c)
      . rw [hpl]
        simp only [State.around, State.items, setCache_cache, if_true, hfree]
      . exact around_setCache k hpl hnone
  refine ⟨⟨?_, ?_, ?_⟩, hlists, h.header, h.lost, h.pool, ?_, h.magazine, h.large⟩
  . rw [haround]
    exact h.objects.apart
  . rw [haround]
    exact h.objects.slots
  . rw [haround]
    exact h.objects.holds
  . apply globalFree_setCache _ h.globalFree
    rw [hfree, hcount]
    exact h.globalFree c

theorem own_free (h : OkWith kind s c batch) (hp : p ∈ s.taken) (ho : o ∈ (s.page p).freelist)
    : o ∈ slots (s.page p).cache p := by
  have hin : o ∈ s.around batch (some (.page p)) := by rwa [around_page hp]
  have hpage : pageOf o = p := h.objects.holds (some (.page p)) o hin
  have hslot := (h.page_of_mem _ hin).2
  rwa [hpage] at hslot

theorem inuse_pos (h : OkWith kind s c batch) (pl : Option Place)
    (hpl : pl ≠ some (.page (pageOf o))) (ho : o ∈ s.around batch pl)
    : 0 < (s.page (pageOf o)).inuse := by
  obtain ⟨hp, hslot⟩ := h.page_of_mem pl ho
  have hheader := h.header _ hp
  apply Nat.pos_of_ne_zero
  intro hzero
  have hnodup := h.objects.apart.nodup (some (.page (pageOf o)))
  rw [around_page hp] at hnodup
  have hsub : (s.page (pageOf o)).freelist ⊆ slots (s.page (pageOf o)).cache (pageOf o) :=
    fun _ hx => h.own_free hp hx
  have hlen : (slots (s.page (pageOf o)).cache (pageOf o)).length
      ≤ (s.page (pageOf o)).freelist.length := by
    rw [length_slots, ← hheader.objects, ← hheader.inuse]
    omega
  -- then all slots are on the free list of the page, and the object is there and at its own place
  have hperm := (List.subperm_of_subset hnodup hsub).perm_of_length_le hlen
  have hfree : o ∈ s.around batch (some (.page (pageOf o))) := by
    rw [around_page hp]
    exact hperm.mem_iff.mpr hslot
  exact hpl (h.objects.apart.eq_of_mem pl _ o ho hfree)

end OkWith

theorem inuse_of_empty {pg : Page} (h : pg.kind = .empty) : pg.inuse = 0 := by
  unfold Page.kind at h
  split at h
  next hzero => exact hzero
  next =>
    split at h
    next => cases h
    next => cases h

theorem class_setPage {pg : Page} (hcache : pg.cache = (s.page p).cache) (q : Nat)
    : ((s.setPage p pg).page q).cache = (s.page q).cache := by
  rw [setPage_page]
  split
  next heq => rw [hcache, heq]
  next => rfl

theorem kinds_setPage {pg : Page} : (s.setPage p pg).kinds = update s.kinds p pg.kind := by
  funext q
  simp only [State.kinds, setPage_page, update_apply]
  split <;> rfl

namespace OkWith

theorem popSlot (h : OkWith kind s c batch) (hp : p ∈ s.taken) (hlost : p ∉ s.lost)
    (hclass : (s.page p).cache = c) (hfree : (s.page p).freelist = o :: rest)
    (hb : batch'.Perm (o :: batch))
    : OkWith kind
        (s.setPage p { s.page p with freelist := rest, inuse := (s.page p).inuse + 1 }) c
        batch' := by
  have hheader := h.header p hp
  have hinuse := hheader.inuse
  rw [hfree, List.length_cons] at hinuse
  have hmem : o ∈ s.around batch (some (.page p)) := by simp [around_page hp, hfree]
  have hpage : pageOf o = p := h.objects.holds (some (.page p)) o hmem
  refine h.setPage hp hlost ?_ ?_ ?_
  . rfl
  . refine ⟨hheader.aligned, hheader.magic, hheader.cache, hheader.objects, ?_⟩
    simp only
    omega
  . refine h.objects.moved o (some (.page p)) none rfl (class_setPage ?_) ?_ ?_
    . rfl
    . refine ⟨nofun, ?_, hb, fun k hi hj => around_setPage hi hj⟩
      rw [around_setPage_self hp, around_page hp, hfree]
    . simp only [State.Holds]
      rw [hpage, hclass]

theorem pushSlot (h : OkWith kind s c batch) (hlost : pageOf o ∉ s.lost)
    (hb : batch.Perm (o :: batch'))
    : OkWith kind
        (s.setPage (pageOf o)
          { s.page (pageOf o) with
            freelist := o :: (s.page (pageOf o)).freelist
            inuse := (s.page (pageOf o)).inuse - 1 }) c batch' := by
  have ho : o ∈ batch := hb.mem_iff.mpr List.mem_cons_self
  have hp := (h.page_of_mem none ho).1
  have hheader := h.header _ hp
  have hinuse := hheader.inuse
  have hpos := h.inuse_pos none nofun ho
  refine h.setPage hp hlost ?_ ?_ ?_
  . rfl
  . refine ⟨hheader.aligned, hheader.magic, hheader.cache, hheader.objects, ?_⟩
    simp only [List.length_cons]
    omega
  . refine h.objects.moved o none (some (.page (pageOf o))) rfl (class_setPage ?_) ?_ ?_
    . rfl
    . refine ⟨nofun, hb, ?_, fun k hi hj => around_setPage hj hi⟩
      rw [around_setPage_self hp, around_page hp]
    . rfl

end OkWith

structure Ready (kind : Nat → Kind) (s : State) (c p : Nat) : Prop where
  taken : p ∈ s.taken
  lost : p ∉ s.lost
  cache : (s.page p).cache = c
  inuse : (s.page p).inuse < (s.page p).objects
  kind_eq : kind = update s.kinds p .part

section

variable (h : OkWith kind s c batch) (hr : Ready kind s c p)
include h hr

theorem OkWith.freelist_ne_nil
    : (s.page p).freelist ≠ [] := by
  have hheader := h.header p hr.taken
  have hinuse := hheader.inuse
  have hlt := hr.inuse
  intro hnil
  rw [hnil, List.length_nil] at hinuse
  omega

theorem OkWith.slabFpOk_rest
    (hfree : (s.page p).freelist = o :: rest)
    : slabFpOk c p rest.head? := by
  cases hrest : rest with
  | nil => rfl
  | cons next =>
    have hc := (h.header p hr.taken).cache
    have hmem : next ∈ (s.page p).freelist := by simp [hfree, hrest]
    rw [hr.cache] at hc
    apply slabFpOk_slot hc
    rw [← hr.cache]
    exact h.own_free hr.taken hmem

theorem OkWith.takeSlot
    : ∃ obj s', takeSlot s c p = some (obj, s') ∧ Ok s' c (batch ++ [obj]) ∧ Grown [] s s' := by
  have hheader := h.header p hr.taken
  have hc := hheader.cache
  rw [hr.cache] at hc
  cases hfree : (s.page p).freelist with
  | nil => exact absurd hfree (h.freelist_ne_nil hr)
  | cons obj rest =>
    have hfp := h.slabFpOk_rest hr hfree
    have hlt := hr.inuse
    have hinuse := hheader.inuse
    rw [hfree, List.length_cons] at hinuse
    have hok := h.popSlot hr.taken hr.lost hr.cache hfree (List.perm_append_singleton obj batch)
    have hgrown : Grown []
        s (s.setPage p { s.page p with freelist := rest, inuse := (s.page p).inuse + 1 }) := by
      refine ⟨rfl, rfl, rfl, fun _ hq => .inl hq, fun q hq => ⟨hq, class_setPage ?_ q⟩⟩
      rfl
    unfold SLAB.takeSlot
    simp only [hfree, hfp, not_true_eq_false, if_false, Nat.not_le.mpr hlt]
    by_cases hnil : rest = []
    . -- the last free object: the page is full
      rw [if_pos hnil]
      refine ⟨obj, _, rfl, ?_, hgrown.setCache _⟩
      have hclass : ((s.setPage p
          { s.page p with freelist := rest, inuse := (s.page p).inuse + 1 }).page p).cache = c := by
        rw [setPage_page, if_pos rfl]
        exact hr.cache
      have hlists := hok.lists.toFull hc ⟨hr.taken, hr.lost, hclass⟩ (by simp [hr.kind_eq])
      rw [hr.kind_eq, update_idem] at hlists
      have hkind : Page.kind { s.page p with freelist := rest, inuse := (s.page p).inuse + 1 }
          = .full := by
        rw [hnil, List.length_nil] at hinuse
        unfold Page.kind
        simp only
        rw [if_neg (by omega), if_pos (by omega)]
      rw [← hkind, ← kinds_setPage] at hlists
      exact hok.setCache hlists rfl rfl
    . rw [if_neg hnil]
      refine ⟨obj, _, rfl, ?_, hgrown⟩
      have hkind : Page.kind { s.page p with freelist := rest, inuse := (s.page p).inuse + 1 }
          = .part := by
        have hpos := List.length_pos_of_ne_nil hnil
        unfold Page.kind
        simp only
        rw [if_neg (by omega), if_neg (by omega)]
      rw [hr.kind_eq, ← hkind, ← kinds_setPage] at hok
      exact hok

end

end SLAB
