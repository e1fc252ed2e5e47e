import Skyline.VMM.Lemmas.Table
import Skyline.VMM.Regions

/-!
This module contains what the memory manager gets from the page frame manager, and what becomes of
the record of the sentinel of a page map.
-/

namespace VMM

def spoiled (s : State) : Set Nat :=
  { p | p ∈ s.nodePages }

structure Backed (s : State) : Prop where
  inv : PMM.Inv (spoiled s) s.pmm
  zero : 0 ∉ avail s

structure Handed (s s' : State) (n ptr : Nat) : Prop where
  rest : s' = { s with pmm := s'.pmm }
  backed : Backed s'
  frame : PMM.Frame s.pmm s'.pmm
  aligned : ptr % 4096 = 0
  pos : 0 < n
  inside : ∀ (i : Nat), i < n → ptr / 4096 + i ∈ avail s
  avail_eq : avail s' = avail s \ { g | ptr / 4096 ≤ g ∧ g < ptr / 4096 + n }

section

variable {s s' : State}

theorem avail_of_changed {pmm : PMM.State} {pages : Set Nat}
    (h : PMM.Changed (spoiled s) s.pmm pmm pages)
    : avail { s with pmm } = { f | f ∈ pages ∧ f ∉ s.nodePages } := by
  ext f
  simp only [avail, Set.mem_ofPred_eq]
  constructor
  . exact fun hf => ⟨(h.mem_iff f hf.right).mp hf.left, hf.right⟩
  . exact fun hf => ⟨(h.mem_iff f hf.right).mpr hf.left, hf.right⟩

theorem handOut_some {n ptr : Nat} {res : Option Nat × PMM.State} (h : Backed s)
    (hok : PMM.RequestOk (spoiled s) s.pmm n res) (hres : handOut s n res = .ok (some ptr, s'))
    : Handed s s' n ptr ∧ res = (some ptr, s'.pmm) := by
  match res with
  | (none, pmm) => simp [handOut] at hres
  | (some ptr', pmm) =>
    simp only [handOut] at hres
    split at hres
    . contradiction
    . next hnodes =>
      simp only [Except.ok.injEq, Prod.mk.injEq, Option.some.injEq] at hres
      obtain ⟨rfl, rfl⟩ := hres
      have hok : PMM.Granted (spoiled s) s.pmm pmm n ptr' := hok
      -- None of the pages holds VMA nodes.
      have hgood : ∀ (g : Nat), ptr' / 4096 ≤ g → g < ptr' / 4096 + n → g ∉ s.nodePages := by
        intro g h1 h2 hg
        apply hnodes
        rw [List.any_eq_true]
        exact ⟨g, hg, by simp [h1, h2]⟩
      have havail := avail_of_changed hok.changed
      have hpages : ∀ (g : Nat), g ∈ PMM.pagesAt ptr' n
          ↔ ptr' / 4096 ≤ g ∧ g < ptr' / 4096 + n := by
        intro g
        rw [PMM.pagesAt, Finset.mem_Ico]
      have hpos := hok.pos
      refine ⟨⟨rfl, ⟨hok.changed.inv, ?_⟩, hok.changed.frame, ?_, hok.pos, ?_, ?_⟩, rfl⟩
      . rw [havail]
        exact fun h0 => h.zero ⟨h0.left.left, h0.right⟩
      . exact hok.aligned (hgood _ (by omega) (by omega))
      . intro i hi
        have hg := hgood (ptr' / 4096 + i) (by omega) (by omega)
        exact ⟨hok.inside _ hg ((hpages _).mpr (by omega)), hg⟩
      . rw [havail]
        ext g
        simp only [avail, Set.mem_ofPred_eq, Set.mem_sdiff, Finset.mem_coe, hpages]
        constructor
        . exact fun hg => ⟨⟨hg.left.left, hg.right⟩, hg.left.right⟩
        . exact fun hg => ⟨⟨hg.left.left, hg.right⟩, hg.left.right⟩

theorem request_some {ptr : Nat} (h : Backed s) (hres : request s = .ok (some ptr, s'))
    : Handed s s' 1 ptr :=
  (handOut_some h (PMM.request_ok h.inv s.cpu 1) hres).left

theorem requestUnchecked_ok {ptr : Nat} (h : Backed s) (hres : requestUnchecked s = .ok (ptr, s'))
    : Handed s s' 1 ptr := by
  simp only [requestUnchecked] at hres
  split at hres
  . contradiction
  . contradiction
  . next ptr' s1 heq =>
    simp only [Except.ok.injEq, Prod.mk.injEq] at hres
    obtain ⟨rfl, rfl⟩ := hres
    exact request_some h heq

structure Returnable (s : State) (f : Nat) : Prop where
  pos : 0 < f
  lt : f < s.pmm.bitmapPages
  out : f ∉ avail s
  good : f ∉ s.nodePages

structure GaveBack (s s' : State) (f : Nat) : Prop where
  backed : Backed s'
  frame : PMM.Frame s.pmm s'.pmm
  avail_eq : avail s' = insert f (avail s)

theorem pmmFree_gaveBack {f : Nat} (h : Backed s) (hf : Returnable s f)
    : GaveBack s (pmmFree s (f * 4096)) f := by
  have hout : f ∉ PMM.avail s.pmm := fun hmem => hf.out ⟨hmem, hf.good⟩
  have hpages : PMM.pagesAt (f * 4096) 1 = {f} := by
    rw [PMM.pagesAt_one, Nat.mul_div_cancel _ (by omega)]
  have hr : PMM.Releasable (spoiled s) s.pmm (f * 4096) 1 := by
    constructor
    . intro _
      omega
    . have := hf.pos
      omega
    . omega
    . intro p hp
      rw [hpages, Finset.mem_singleton] at hp
      rw [hp]
      exact hf.lt
    . intro p _ hp
      rw [hpages, Finset.mem_singleton] at hp
      rw [hp]
      exact hout
  have hc := PMM.free_changed h.inv s.cpu (f * 4096) 1 hr
  rw [hpages] at hc
  have havail : avail (pmmFree s (f * 4096)) = insert f (avail s) := by
    show avail { s with pmm := PMM.free s.pmm s.cpu (f * 4096) 1 } = _
    rw [avail_of_changed hc]
    ext g
    simp only [avail, Set.mem_ofPred_eq, Set.mem_union, Finset.coe_singleton, Set.mem_singleton_iff,
      Set.mem_insert_iff]
    constructor
    . rintro ⟨hg | hg, hn⟩
      . exact Or.inr ⟨hg, hn⟩
      . exact Or.inl hg
    . rintro (hg | hg)
      . exact ⟨Or.inr hg, hg ▸ hf.good⟩
      . exact ⟨Or.inl hg.left, hg.right⟩
  refine ⟨⟨hc.inv, ?_⟩, hc.frame, havail⟩
  rw [havail, Set.mem_insert_iff]
  rintro (h0 | h0)
  . exact absurd h0 (Nat.ne_of_lt hf.pos)
  . exact h.zero h0

end

variable {s s' : State} {pm n k : Nat}

def Avoids (map : Pagemap) (n : Nat) : Prop :=
  ∀ r ∈ map.regions, r.node ≠ n

structure Lost (s : State) (pm n k : Nat) : Prop where
  pages : k ≤ s.nodePages.length
  out : s.nodePages.length = k → n ∉ s.nodeFreeList ∧ Avoids (s.pagemap pm) n

namespace Lost

theorem congr (h : Lost s pm n k) (hpages : s'.nodePages = s.nodePages)
    (hfree : s'.nodeFreeList = s.nodeFreeList)
    (hregions : (s'.pagemap pm).regions = (s.pagemap pm).regions)
    : Lost s' pm n k := by
  constructor
  . rw [hpages]
    exact h.pages
  . unfold Avoids
    rw [hpages, hfree, hregions]
    exact h.out

theorem pagingOnly (h : Lost s pm n k) (hs : PagingOnly s s') : Lost s' pm n k := by
  apply h.congr
  . rw [hs.rest]
  . rw [hs.rest]
  . rw [hs.pagemap pm]

theorem recordsOnly (h : Lost s pm n k) (hs : RecordsOnly s s') : Lost s' pm n k := by
  apply h.congr
  . rw [hs.rest]
  . rw [hs.rest]
  . rw [hs.rest]

theorem vmaAllocNode {node : Option Nat} (h : Lost s pm n k)
    (halloc : vmaAllocNode s = .ok (node, s'))
    : Lost s' pm n k ∧ (s'.nodePages.length = k → node ≠ some n) ∧ s'.pagemap = s.pagemap := by
  unfold VMM.vmaAllocNode at halloc
  split at halloc
  next first rest hlist =>
    cases halloc
    refine ⟨⟨h.pages, ?_⟩, ?_, rfl⟩
    . intro hk
      have hout := h.out hk
      rw [hlist, List.mem_cons, not_or] at hout
      exact ⟨hout.1.2, hout.2⟩
    . intro hk heq
      apply (h.out hk).1
      rw [hlist, Option.some.inj heq]
      exact List.mem_cons_self
  next =>
    obtain ⟨⟨ptr, t⟩, ht, halloc⟩ := bind_ok.mp halloc
    have hrest := request_rest ht
    cases ptr with
    | none =>
      cases halloc
      refine ⟨h.pagingOnly (PagingOnly.handOut ht), ?_, ?_⟩
      . intro _ heq
        cases heq
      . rw [hrest]
    | some pg =>
      cases halloc
      -- the page that was cut is one more
      have hmore : s.nodePages.length + 1 = (pg / 4096 :: t.nodePages).length := by
        rw [hrest]
        rfl
      have hpages := h.pages
      refine ⟨⟨?_, ?_⟩, ?_, ?_⟩
      . show k ≤ (pg / 4096 :: t.nodePages).length
        omega
      . intro hk
        have hk : (pg / 4096 :: t.nodePages).length = k := hk
        omega
      . intro hk
        have hk : (pg / 4096 :: t.nodePages).length = k := hk
        omega
      . show t.pagemap = s.pagemap
        rw [hrest]

theorem freeNodes (h : Lost s pm n k) (freed : List Nat)
    (hfreed : s.nodePages.length = k → n ∉ freed)
    : Lost (freed.foldl vmaFreeNode s) pm n k := by
  induction freed generalizing s with
  | nil => exact h
  | cons x _ ih =>
    apply ih
    . refine ⟨h.pages, ?_⟩
      intro hk
      have hne := hfreed hk
      rw [List.mem_cons, not_or] at hne
      refine ⟨?_, (h.out hk).2⟩
      show n ∉ x :: s.nodeFreeList
      rw [List.mem_cons, not_or]
      exact ⟨hne.1, (h.out hk).1⟩
    . intro hk hmem
      exact hfreed hk (List.mem_cons_of_mem x hmem)

end Lost

section

variable {map : Pagemap} {r : Region}

theorem Avoids.updateRegion (h : Avoids map n) (node : Nat) {f : Region → Region}
    (hf : ∀ r, (f r).node = r.node) : Avoids (updateRegion map node f) n := by
  intro r hr
  obtain ⟨r0, hr0, rfl⟩ := List.mem_map.1 hr
  have hne := h r0 hr0
  split
  . rw [hf]
    exact hne
  . exact hne

theorem Avoids.unlinkRegion (h : Avoids map n) (head : Region) (node : Nat)
    : Avoids (unlinkRegion map head node) n := by
  intro r hr
  exact h r (List.mem_filter.1 hr).1

theorem mem_insertAfter {l : List Region} {after : Nat} {x : Region} (h : x ∈ insertAfter l after r)
    : x = r ∨ x ∈ l := by
  induction l with
  | nil =>
    rw [List.mem_singleton.1 h]
    exact .inl rfl
  | cons _ _ ih =>
    unfold insertAfter at h
    split at h
    . simp only [List.mem_cons] at h ⊢
      tauto
    . rw [List.mem_cons] at h ⊢
      cases h with
      | inl heq => exact .inr (.inl heq)
      | inr hmem =>
        cases ih hmem with
        | inl heq => exact .inl heq
        | inr hmem => exact .inr (.inr hmem)

theorem Avoids.linkRegion (h : Avoids map n) (head : Region) (after : Nat) (hr : r.node ≠ n)
    : Avoids (linkRegion map head after r) n := by
  intro x hx
  have hx : x ∈ if after = head.node then r :: map.regions else insertAfter map.regions after r :=
    hx
  split at hx
  . cases List.mem_cons.1 hx with
    | inl heq => exact heq ▸ hr
    | inr hmem => exact h x hmem
  . cases mem_insertAfter hx with
    | inl heq => exact heq ▸ hr
    | inr hmem => exact h x hmem

theorem mergeNext_avoids (head : Region) (next : List Region) (h : Avoids map n) (hr : r.node ≠ n)
    (hnext : ∀ x ∈ next, x.node ≠ n)
    : (mergeNext map head r next).1.node ≠ n ∧ Avoids (mergeNext map head r next).2.1 n
      ∧ n ∉ (mergeNext map head r next).2.2 := by
  induction next generalizing map r with
  | nil => exact ⟨hr, h, List.not_mem_nil⟩
  | cons cur _ ih =>
    unfold mergeNext
    split
    . have hmap := (h.updateRegion r.node
        (f := fun x => { x with pageCount := r.pageCount + cur.pageCount })
        fun _ => rfl).unlinkRegion head cur.node
      have hrest := ih (r := { r with pageCount := r.pageCount + cur.pageCount }) hmap hr
        fun x hx => hnext x (List.mem_cons_of_mem cur hx)
      refine ⟨hrest.1, hrest.2.1, ?_⟩
      simp only [List.mem_cons, not_or]
      exact ⟨(hnext cur List.mem_cons_self).symm, hrest.2.2⟩
    . exact ⟨hr, h, List.not_mem_nil⟩

theorem mergePrev_avoids (head : Region) (before : List Region) (h : Avoids map n) (hr : r.node ≠ n)
    (hbefore : ∀ x ∈ before, x.node ≠ n)
    : Avoids (mergePrev map head r before).1 n ∧ n ∉ (mergePrev map head r before).2 := by
  induction before generalizing map r with
  | nil => exact ⟨h, List.not_mem_nil⟩
  | cons prev _ ih =>
    unfold mergePrev
    split
    . have hmap := (h.updateRegion prev.node
        (f := fun x => { x with pageCount := prev.pageCount + r.pageCount })
        fun _ => rfl).unlinkRegion head r.node
      have hrest := ih (r := { prev with pageCount := prev.pageCount + r.pageCount }) hmap
        (hbefore prev List.mem_cons_self) fun x hx => hbefore x (List.mem_cons_of_mem prev hx)
      refine ⟨hrest.1, ?_⟩
      simp only [List.mem_cons, not_or]
      exact ⟨hr.symm, hrest.2⟩
    . exact ⟨h, List.not_mem_nil⟩

theorem addAt_avoids (h : Avoids map n) (head : Region) (hr : r.node ≠ n)
    : Avoids (addAt map head r).1 n ∧ n ∉ (addAt map head r).2 := by
  have hlink := h.linkRegion head (lastNode map head) hr
  have hnext := mergeNext_avoids head
    (((linkRegion map head (lastNode map head) r).regions.dropWhile fun x => x.node != r.node).drop
      1) hlink hr
    fun x hx => hlink x ((List.dropWhile_sublist _).subset (List.mem_of_mem_drop hx))
  have hprev := mergePrev_avoids head
    ((linkRegion map head (lastNode map head) r).regions.takeWhile
      fun x => x.node != r.node).reverse
    hnext.2.1 hnext.1
    fun x hx => hlink x ((List.takeWhile_sublist _).subset (List.mem_reverse.1 hx))
  refine ⟨hprev.1, ?_⟩
  show n ∉ _ ++ _
  rw [List.mem_append, not_or]
  exact ⟨hnext.2.2, hprev.2⟩

end

variable {child parent ptr : Nat} {t : State} {res : Option Nat}

variable {start pageCount node : Nat} {flags : BitVec 64} {head : Region} {u : State}

namespace Lost

theorem addRegion (h : Lost s pm n k)
    (hadd : addRegion s pm start pageCount flags = .ok s') : Lost s' pm n k := by
  unfold VMM.addRegion at hadd
  split at hadd
  next =>
    cases hadd
    exact h
  next head _ =>
    split at hadd
    next =>
      cases hadd
      exact h
    next =>
      obtain ⟨⟨node, t⟩, ht, hadd⟩ := bind_ok.mp hadd
      obtain ⟨hlost, hne, hmaps⟩ := h.vmaAllocNode ht
      cases node with
      | none =>
        cases hadd
        exact hlost
      | some node =>
        cases hadd
        have hadded : t.nodePages.length = k
            → Avoids (addAt (t.pagemap pm) head { node, start, pageCount, flags }).1 n
              ∧ n ∉ (addAt (t.pagemap pm) head { node, start, pageCount, flags }).2 := by
          intro hk
          apply addAt_avoids (hlost.out hk).2 head
          intro heq
          exact hne hk (congrArg some heq)
        apply freeNodes
        . refine ⟨hlost.pages, ?_⟩
          intro hk
          refine ⟨(hlost.out hk).1, ?_⟩
          simp only [State.setPagemap, if_true]
          exact (hadded hk).1
        . exact fun hk => (hadded hk).2

theorem removeRegion (h : Lost s pm n k) (hne : s.nodePages.length = k → node ≠ n)
    : Lost (removeRegion s pm node) pm n k := by
  unfold VMM.removeRegion
  split
  . exact h
  next head _ =>
    refine freeNodes ?_ [node] ?_
    . refine ⟨h.pages, ?_⟩
      intro hk
      refine ⟨(h.out hk).1, ?_⟩
      simp only [State.setPagemap, if_true]
      exact (h.out hk).2.unlinkRegion head node
    . intro hk hmem
      exact hne hk (List.mem_singleton.1 hmem).symm

theorem newMapping (h : Lost s pm n k)
    (hnew : newMapping s child start pageCount flags = .ok s') : Lost s' pm n k := by
  obtain ⟨m, t, halloc, hcases⟩ := newMapping_cases hnew
  have hlost : Lost t pm n k := by
    unfold mapAllocNode at halloc
    split at halloc
    next =>
      obtain ⟨⟨ptr, t'⟩, ht, halloc⟩ := bind_ok.mp halloc
      have hpaging := h.pagingOnly (PagingOnly.handOut ht)
      cases ptr with
      | none =>
        cases halloc
        exact hpaging
      | some =>
        cases halloc
        exact hpaging.congr rfl rfl rfl
    next =>
      cases halloc
      exact h.congr rfl rfl rfl
  rcases hcases with ⟨-, rfl⟩ | ⟨-, mapping, ⟨head, -, -, rfl, -⟩ | ⟨-, -, -, rfl⟩⟩
  . exact hlost
  . exact hlost.congr rfl rfl rfl
  . refine hlost.congr rfl rfl ?_
    dsimp only
    rw [Function.update_apply]
    split
    next heq => rw [heq]
    next => rfl

theorem forkRegions {ok : Bool} (hne : parent ≠ child) (regions : List Region)
    (h : Lost s child n k) (hfork : forkRegions s parent child regions = .ok (ok, s'))
    : Lost s' child n k := by
  induction regions generalizing s with
  | nil =>
    cases hfork
    exact h
  | cons _ _ ih =>
    unfold VMM.forkRegions at hfork
    split at hfork
    next => exact ih h hfork
    next =>
      obtain ⟨⟨shared, t⟩, ht, hfork⟩ := bind_ok.mp hfork
      have hlost := h.pagingOnly (PagingOnly.forkPages ht)
      cases shared with
      | false =>
        cases hfork
        exact hlost
      | true =>
        obtain ⟨t1, ht1, hfork⟩ := bind_ok.mp hfork
        obtain ⟨t2, ht2, hfork⟩ := bind_ok.mp hfork
        refine ih ?_ hfork
        refine newMapping (addRegion ?_ ht1) ht2
        apply hlost.congr
        . rfl
        . rfl
        . simp only [State.setPagemap, if_neg hne.symm]

theorem cleanRegion (h : Lost s pm n k) {r : Region} (hne : s.nodePages.length = k → r.node ≠ n)
    : Lost (VMM.cleanRegions.cleanRegion pm s r) pm n k
      ∧ (VMM.cleanRegions.cleanRegion pm s r).nodePages = s.nodePages := by
  have hfree : PagingOnly s (if r.start < higherHalfZero s.hhdmOffset then freeRegion s pm r
      else s) := by
    split
    . exact PagingOnly.freeRegion s pm r
    . exact PagingOnly.refl s
  have hpages : (if r.start < higherHalfZero s.hhdmOffset then freeRegion s pm r
      else s).nodePages = s.nodePages := by
    rw [hfree.rest]
  constructor
  . apply (h.pagingOnly hfree).removeRegion
    rw [hpages]
    exact hne
  . rw [← hpages]
    simp only [VMM.cleanRegions.cleanRegion, VMM.removeRegion]
    split
    . rfl
    . rfl

theorem cleanRegions (h : Lost s pm n k) : Lost (cleanRegions s pm) pm n k := by
  have hfold : ∀ (rs : List Region) (t : State), Lost t pm n k
      → (t.nodePages.length = k → ∀ r ∈ rs, r.node ≠ n)
      → Lost (rs.foldl (VMM.cleanRegions.cleanRegion pm) t) pm n k := by
    intro rs
    induction rs with
    | nil => exact fun t ht _ => ht
    | cons r _ ih =>
      intro t ht hrs
      have hstep := ht.cleanRegion fun hk => hrs hk r List.mem_cons_self
      apply ih
      . exact hstep.1
      . intro hk x hx
        rw [hstep.2] at hk
        exact hrs hk x (List.mem_cons_of_mem r hx)
  simp only [VMM.cleanRegions]
  split
  . exact h
  next head _ =>
    have hall := hfold (s.pagemap pm).regions s h fun hk => (h.out hk).2
    apply (hall.pagingOnly (PagingOnly.pmmFree _ head.node)).congr
    . rfl
    . rfl
    . simp only [State.setPagemap, if_true]

theorem destroyPM (h : Lost s pm n k) (hdestroy : destroyPM s pm = .ok s')
    : k ≤ s'.nodePages.length ∧ (s'.nodePages.length = k → n ∉ s'.nodeFreeList) := by
  obtain ⟨t1, h1, hdestroy⟩ := bind_ok.mp hdestroy
  obtain ⟨t, ht, h1⟩ := bind_ok.mp h1
  cases Except.ok.inj h1
  cases Except.ok.inj hdestroy
  have hlost := h.cleanRegions.recordsOnly (.cleanMappings ht)
  have hcleaned : Lost (t.setPagemap pm { t.pagemap pm with vmMappings := 0 }) pm n k := by
    apply hlost.congr
    . rfl
    . rfl
    . simp only [State.setPagemap, if_true]
  generalize t.setPagemap pm { t.pagemap pm with vmMappings := 0 } = u at hcleaned
  have hfreed := ((hcleaned.pagingOnly (.freePageTables 4 (u.pagemap pm).entries u)).pagingOnly
    (.pmmFree _ (u.pagemap pm).toplvl)).pagingOnly (.pmmFree _ pm)
  exact ⟨hfreed.pages, fun hk => (hfreed.out hk).1⟩

end Lost

def Spent (s t : State) (pm : Nat) : Prop :=
  ∃ n k, Lost t pm n k ∧ (k = s.nodePages.length + 1 ∨ k = s.nodePages.length ∧ n ∈ s.nodeFreeList)

def SamePool (s s' : State) : Prop :=
  s'.nodePages = s.nodePages ∧ s'.nodeFreeList = s.nodeFreeList

theorem Spent.destroyPM (h : Spent s t pm) (hdestroy : destroyPM t pm = .ok s')
    : ¬SamePool s s' := by
  obtain ⟨n, k, hlost, hk⟩ := h
  have hend := hlost.destroyPM hdestroy
  intro hsame
  rw [hsame.1, hsame.2] at hend
  cases hk with
  | inl => omega
  | inr hfree => exact hend.2 hfree.1.symm hfree.2

def forkBase (s : State) : Except Fault (Nat × State) := do
  let (child, s) ← requestUnchecked s
  let (toplvl, s) ← requestUnchecked s
  return (child, s.setPagemap child (emptySpace s toplvl))

def forkRest (parent child : Nat) (s : State) : Except Fault (Option Nat × State) := do
  match (s.pagemap parent).vmaHead with
  | none => return (some child, s)
  | some head =>
    let s ← setStart s child head.start
    match ← forkRegions s parent child (head :: (s.pagemap parent).regions) with
    | (true, s) => return (some child, s)
    | (false, s) =>
      let s ← destroyPM s child
      return (none, s)

theorem fork_ok (h : fork s parent = .ok (res, s'))
    : ∃ child t, forkBase s = .ok (child, t) ∧ forkRest parent child t = .ok (res, s') := by
  obtain ⟨⟨child, t1⟩, h1, h⟩ := bind_ok.mp h
  obtain ⟨⟨toplvl, t2⟩, h2, h⟩ := bind_ok.mp h
  refine ⟨child, _, ?_, h⟩
  apply bind_ok.mpr
  refine ⟨(child, t1), h1, ?_⟩
  apply bind_ok.mpr
  exact ⟨(toplvl, t2), h2, rfl⟩

theorem requestUnchecked_rest (h : requestUnchecked s = .ok (ptr, s'))
    : s' = { s with pmm := s'.pmm } := by
  unfold requestUnchecked at h
  split at h
  next => cases h
  next => cases h
  next heq =>
    cases h
    exact request_rest heq

theorem forkBase_rest (h : forkBase s = .ok (child, t))
    : t.nodePages = s.nodePages ∧ t.nodeFreeList = s.nodeFreeList
      ∧ t.rcTree = s.rcTree ∧ t.heap = s.heap
      ∧ (∃ toplvl, t.pagemap child = emptySpace s toplvl)
      ∧ ∀ a, a ≠ child → t.pagemap a = s.pagemap a := by
  obtain ⟨⟨c, t1⟩, h1, h⟩ := bind_ok.mp h
  obtain ⟨⟨toplvl, t2⟩, h2, h⟩ := bind_ok.mp h
  have hrest1 := requestUnchecked_rest h1
  have hrest2 := requestUnchecked_rest h2
  cases Except.ok.inj h
  have hrest : t2 = { s with pmm := t2.pmm } := by
    rw [hrest2, hrest1]
  refine ⟨?_, ?_, ?_, ?_, ⟨toplvl, ?_⟩, ?_⟩
  . show t2.nodePages = _
    rw [hrest]
  . show t2.nodeFreeList = _
    rw [hrest]
  . show t2.rcTree = _
    rw [hrest]
  . show t2.heap = _
    rw [hrest]
  . rw [setPagemap_self, hrest]
    rfl
  . intro a ha
    show (if a = _ then _ else t2.pagemap a) = _
    rw [if_neg ha, hrest]

def NoSentinel (s : State) : Prop :=
  ∃ child t t', forkBase s = .ok (child, t) ∧ vmaAllocNode t = .ok (none, t')

theorem Lost.firstStart (h : VMM.vmaAllocNode s = .ok (some node, s'))
    (hnodup : s.nodeFreeList.Nodup) (pm start : Nat)
    : Spent s (s'.setPagemap pm (VMM.firstStart (s'.pagemap pm) node start)) pm := by
  have hregions : Avoids
      ((s'.setPagemap pm (VMM.firstStart (s'.pagemap pm) node start)).pagemap pm) node := by
    rw [setPagemap_self]
    intro r hr
    cases hr
  unfold VMM.vmaAllocNode at h
  split at h
  next first rest hlist =>
    cases h
    refine ⟨node, s.nodePages.length, ⟨Nat.le_refl _, ?_⟩, .inr ⟨rfl, ?_⟩⟩
    . intro _
      rw [hlist, List.nodup_cons] at hnodup
      exact ⟨hnodup.1, hregions⟩
    . rw [hlist]
      exact List.mem_cons_self
  next =>
    obtain ⟨⟨ptr, t⟩, ht, h⟩ := bind_ok.mp h
    have hrest := request_rest ht
    cases ptr with
    | none => cases h
    | some =>
      cases h
      refine ⟨node, s.nodePages.length + 1, ⟨?_, ?_⟩, .inl rfl⟩
      . show s.nodePages.length + 1 ≤ (node / 4096 :: t.nodePages).length
        rw [hrest]
        exact Nat.le_refl _
      . intro _
        refine ⟨?_, hregions⟩
        show node ∉ (List.range 38).map fun i => node + (i + 1) * 104
        rw [List.mem_map]
        rintro ⟨i, _, heq⟩
        omega

theorem fork_spent
    (hbase : forkBase s = .ok (child, t)) (hhead : (t.pagemap parent).vmaHead = some head)
    (hnodup : s.nodeFreeList.Nodup) (h : forkRest parent child t = .ok (res, s'))
    : NoSentinel s ∨ res = some child ∧ Spent s s' child ∨ res = none ∧ ¬SamePool s s' := by
  obtain ⟨hpages, hfree, _, _, ⟨toplvl, hchild⟩, _⟩ := forkBase_rest hbase
  have hne : parent ≠ child := by
    intro heq
    rw [heq, hchild] at hhead
    cases hhead
  simp only [forkRest, hhead] at h
  obtain ⟨t1, h1, h⟩ := bind_ok.mp h
  obtain ⟨⟨ok, t2⟩, h2, h⟩ := bind_ok.mp h
  simp only [setStart, hchild] at h1
  obtain ⟨⟨node, t0⟩, h0, h1⟩ := bind_ok.mp h1
  cases node with
  | none => exact .inl ⟨child, t, t0, hbase, h0⟩
  | some =>
    apply Or.inr
    cases Except.ok.inj h1
    obtain ⟨n, k, hlost, hk⟩ := Lost.firstStart h0 (hfree ▸ hnodup) child head.start
    rw [hpages, hfree] at hk
    have hforked := hlost.forkRegions hne _ h2
    cases ok with
    | true =>
      cases Except.ok.inj h
      exact .inl ⟨rfl, n, k, hforked, hk⟩
    | false =>
      obtain ⟨t3, h3, h⟩ := bind_ok.mp h
      cases Except.ok.inj h
      exact .inr ⟨rfl, Spent.destroyPM ⟨n, k, hforked, hk⟩ h3⟩

theorem Handed.returnable (h : Handed s s' 1 ptr) (hs : Backed s) : Returnable s' (ptr / 4096) := by
  have hin := h.inside 0 (by omega)
  rw [Nat.add_zero] at hin
  constructor
  . apply Nat.pos_of_ne_zero
    intro hzero
    rw [hzero] at hin
    exact hs.zero hin
  . rw [h.frame.bitmapPages]
    exact hs.inv.avail_lt hin.1
  . rw [h.avail_eq]
    intro hmem
    exact hmem.2 ⟨Nat.le_refl _, by omega⟩
  . rw [h.rest]
    exact hin.2

theorem freePageTables_kernelHalf (entries : Nat → Entry) (s : State)
    : freePageTables 4 (kernelHalf entries) s = s := by
  unfold freePageTables
  apply Loop.forRange_induct _ (fun _ t => t = s) 0 256 s rfl
  intro i t _ hi ht
  simp only [kernelHalf, if_neg (Nat.not_le.mpr hi)]
  exact ht

theorem destroyPM_bare {toplvl : Nat} (h : s.pagemap pm = emptySpace s' toplvl)
    : destroyPM s pm
        =
      .ok ((pmmFree (pmmFree (s.setPagemap pm (s.pagemap pm)) toplvl) pm).setPagemap pm
        Pagemap.empty) := by
  have hregions : cleanRegions s pm = s := by
    simp only [cleanRegions, h, emptySpace, Pagemap.empty]
  have hmappings : cleanMappings s pm = .ok s := by
    simp only [cleanMappings, h, emptySpace, Pagemap.empty, if_true]
  have hclean : cleanPM s pm = .ok (s.setPagemap pm (s.pagemap pm)) := by
    unfold cleanPM
    rw [hregions, hmappings]
    show Except.ok (s.setPagemap pm { s.pagemap pm with vmMappings := 0 }) = _
    rw [h]
    rfl
  unfold destroyPM
  rw [hclean]
  show Except.ok ((pmmFree (pmmFree (freePageTables 4 _ _) _) pm).setPagemap pm Pagemap.empty) = _
  rw [setPagemap_self, h]
  show Except.ok ((pmmFree (pmmFree (freePageTables 4 (kernelHalf _) _) toplvl) pm).setPagemap pm
    Pagemap.empty) = _
  rw [freePageTables_kernelHalf]

theorem Backed.congr (h : Backed s) (hpmm : s'.pmm = s.pmm) (hpages : s'.nodePages = s.nodePages)
    : Backed s' := by
  constructor
  . unfold spoiled
    rw [hpmm, hpages]
    exact h.inv
  . unfold avail
    rw [hpmm, hpages]
    exact h.zero

structure SamePages (u t : State) : Prop where
  backed : Backed u
  avail_eq : avail u = avail t
  nodePages : u.nodePages = t.nodePages
  bitmapPages : u.pmm.bitmapPages = t.pmm.bitmapPages

theorem Handed.giveBack (h : Handed s t 1 ptr) (hs : Backed s) (hu : SamePages u t)
    : SamePages (pmmFree u ptr) s := by
  have hret := h.returnable hs
  have hret' : Returnable u (ptr / 4096) := by
    refine ⟨hret.pos, ?_, ?_, ?_⟩
    . rw [hu.bitmapPages]
      exact hret.lt
    . rw [hu.avail_eq]
      exact hret.out
    . rw [hu.nodePages]
      exact hret.good
  have hgave := pmmFree_gaveBack hu.backed hret'
  rw [Nat.div_mul_cancel (Nat.dvd_of_mod_eq_zero h.aligned)] at hgave
  have hin := h.inside 0 (by omega)
  rw [Nat.add_zero] at hin
  refine ⟨hgave.backed, ?_, ?_, ?_⟩
  . rw [hgave.avail_eq, hu.avail_eq, h.avail_eq]
    ext g
    simp only [Set.mem_insert_iff, Set.mem_sdiff, Set.mem_ofPred_eq]
    constructor
    . rintro (hg | hg)
      . rw [hg]
        exact hin
      . exact hg.1
    . intro hg
      by_cases heq : g = ptr / 4096
      . exact .inl heq
      . exact .inr ⟨hg, by omega⟩
  . show u.nodePages = _
    rw [hu.nodePages, h.rest]
  . rw [hgave.frame.bitmapPages, hu.bitmapPages, h.frame.bitmapPages]

theorem forkBase_handed (hs : Backed s) (h : forkBase s = .ok (child, t))
    : ∃ t1 t2 toplvl, Handed s t1 1 child ∧ Handed t1 t2 1 toplvl ∧ t.pmm = t2.pmm
      ∧ t.nodePages = t2.nodePages
      ∧ t.pagemap child = emptySpace t2 toplvl := by
  obtain ⟨⟨c, t1⟩, h1, h⟩ := bind_ok.mp h
  obtain ⟨⟨toplvl, t2⟩, h2, h⟩ := bind_ok.mp h
  have hchild := requestUnchecked_ok hs h1
  cases Except.ok.inj h
  exact ⟨t1, t2, toplvl, hchild, requestUnchecked_ok hchild.backed h2, rfl, rfl,
    setPagemap_self _ _ _⟩

theorem forkBase_destroyPM (hs : Backed s) (hbase : forkBase s = .ok (child, t))
    (hu : u = { t with heap := u.heap }) (hdestroy : destroyPM u child = .ok s')
    : avail s' = avail s ∧ s'.rcTree = s.rcTree ∧ SamePool s s' := by
  obtain ⟨hpages, hfree, hrc, _⟩ := forkBase_rest hbase
  obtain ⟨t1, t2, toplvl, hchild, htop, hpmm, hnodes, hself⟩ := forkBase_handed hs hbase
  have hmap : u.pagemap child = emptySpace t2 toplvl := by
    rw [hu]
    exact hself
  rw [destroyPM_bare hmap] at hdestroy
  cases Except.ok.inj hdestroy
  constructor
  . -- the table goes back first, then the page map itself
    have hu2 : SamePages (u.setPagemap child (u.pagemap child)) t2 := by
      have hpmm' : u.pmm = t2.pmm := by rw [hu, ← hpmm]
      have hnodes' : u.nodePages = t2.nodePages := by rw [hu, ← hnodes]
      refine ⟨htop.backed.congr hpmm' hnodes', ?_, hnodes', ?_⟩
      . show { f | f ∈ PMM.avail u.pmm ∧ f ∉ u.nodePages } = _
        rw [hpmm', hnodes']
        rfl
      . show u.pmm.bitmapPages = _
        rw [hpmm']
    exact (hchild.giveBack hs (htop.giveBack hchild.backed hu2)).avail_eq
  . constructor
    . show u.rcTree = _
      rw [hu]
      exact hrc
    . constructor
      . show u.nodePages = _
        rw [hu]
        exact hpages
      . show u.nodeFreeList = _
        rw [hu]
        exact hfree

theorem forkBase_fresh {a : Nat} (hs : Backed s) (h : forkBase s = .ok (child, t))
    (ha : a / 4096 ∉ avail s) : a ≠ child := by
  obtain ⟨t1, t2, toplvl, hchild, -⟩ := forkBase_handed hs h
  rintro rfl
  exact ha (hchild.inside 0 (by omega))

theorem fork_of_bare (hhead : (s.pagemap parent).vmaHead = none)
    (h : fork s parent = .ok (res, s'))
    : ∃ child, res = some child ∧ forkBase s = .ok (child, s') := by
  obtain ⟨child, t, hbase, hrest⟩ := fork_ok h
  obtain ⟨-, -, -, -, ⟨toplvl, hchild⟩, hothers⟩ := forkBase_rest hbase
  have hhead' : (t.pagemap parent).vmaHead = none := by
    by_cases heq : parent = child
    . rw [heq, hchild]
      rfl
    . rw [hothers parent heq]
      exact hhead
  simp only [forkRest, hhead'] at hrest
  cases Except.ok.inj hrest
  exact ⟨child, rfl, hbase⟩

theorem fork_of_regions (hs : Backed s)
    (hparent : parent / 4096 ∉ avail s) (hnodup : s.nodeFreeList.Nodup)
    (hhead : (s.pagemap parent).vmaHead = some head) (h : fork s parent = .ok (res, s'))
    : NoSentinel s ∨ (∃ child, res = some child ∧ Spent s s' child)
      ∨ res = none ∧ ¬SamePool s s' := by
  obtain ⟨child, t, hbase, hrest⟩ := fork_ok h
  obtain ⟨-, -, -, -, -, hothers⟩ := forkBase_rest hbase
  have hhead' : (t.pagemap parent).vmaHead = some head := by
    rw [hothers parent (forkBase_fresh hs hbase hparent)]
    exact hhead
  rcases fork_spent hbase hhead' hnodup hrest with hnone | hspent | hfail
  . exact .inl hnone
  . exact .inr (.inl ⟨child, hspent⟩)
  . exact .inr (.inr hfail)

theorem bootState_backed : Backed bootState := by
  obtain ⟨hinv, -, hmanaged⟩ := PMM.init_inv PMM.smallMemmap PMM.smallState PMM.init_smallMemmap_eq
  constructor
  . rw [show spoiled bootState = ∅ from Set.eq_empty_iff_forall_notMem.mpr fun p hp => by cases hp]
    exact hinv
  . exact fun hzero => (hmanaged 0 hzero.1).ne_zero rfl

end VMM
