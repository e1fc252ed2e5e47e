import Skyline.Ring.Basic
import Skyline.VMM.Impl.Mapping

/-!
This module contains the rings of mapping records.
-/

namespace VMM

open Ring Function

def ring (s : State) (pm : Nat) : List Nat :=
  (s.live.filter fun x => x.1 == pm).map Prod.snd

def nextOf (mapping : Nat → Mapping) (m : Nat) : Nat :=
  (mapping m).next

def prevOf (mapping : Nat → Mapping) (m : Nat) : Nat :=
  (mapping m).prev

def FreeChain (mapping : Nat → Mapping) (ptr : Nat) (l : List Nat) : Prop :=
  match l with
  | [] => ptr = 0
  | m :: l => ptr = m ∧ m ≠ 0 ∧ FreeChain mapping (nextOf mapping m) l

def InPage (pg m : Nat) : Prop :=
  pg ≤ m ∧ m < pg + 102 * 40 ∧ (m - pg) % 40 = 0

def PagesOk (pages : List Nat) : Prop :=
  pages.Nodup ∧ ∀ pg ∈ pages, pg % 4096 = 0 ∧ 0 < pg

structure Linked (s : State) (skip : Option Nat) (free : List Nat) : Prop where
  chain : FreeChain s.mapping s.mapFreeList free
  nodup : (free ++ s.live.map Prod.snd).Nodup
  inside : ∀ (m : Nat), m ∈ free ++ s.live.map Prod.snd → ∃ pg ∈ s.mapPages, InPage pg m
  rings : ∀ (pm : Nat), IsRing (nextOf s.mapping) (prevOf s.mapping) (ring s pm)
  heads : ∀ (pm : Nat), some pm ≠ skip → (s.pagemap pm).vmMappings = (ring s pm).headD 0

variable {ptr n pg x head : Nat} {s1 s2 s3 : State}

section

variable {s s' : State} {skip : Option Nat} {free l : List Nat} {pm m : Nat}

theorem mem_ring : m ∈ ring s pm ↔ (pm, m) ∈ s.live := by
  unfold ring
  simp only [List.mem_map, List.mem_filter, beq_iff_eq]
  constructor
  . rintro ⟨⟨p, x⟩, ⟨hmem, hp⟩, hx⟩
    simp only at hp hx
    rwa [hp, hx] at hmem
  . intro hmem
    exact ⟨(pm, m), ⟨hmem, rfl⟩, rfl⟩

theorem FreeChain.congr {mapping mapping' : Nat → Mapping} (h : FreeChain mapping ptr l)
    (hnext : ∀ (x : Nat), x ∈ l → nextOf mapping' x = nextOf mapping x)
    : FreeChain mapping' ptr l := by
  induction l generalizing ptr with
  | nil => exact h
  | cons m _ ih =>
    refine ⟨h.1, h.2.1, ?_⟩
    rw [hnext m (by simp)]
    exact ih h.2.2 fun x hx => hnext x (List.mem_cons_of_mem _ hx)

theorem FreeChain.unique {mapping : Nat → Mapping} {l' : List Nat}
    (h : FreeChain mapping ptr l) (h' : FreeChain mapping ptr l') : l = l' := by
  induction l generalizing ptr l' with
  | nil =>
    cases l' with
    | nil => rfl
    | cons => exact absurd (h'.1.symm.trans h) h'.2.1
  | cons m _ ih =>
    cases l' with
    | nil => exact absurd (h.1.symm.trans h') h.2.1
    | cons m' =>
      have heq : m = m' := h.1.symm.trans h'.1
      subst heq
      rw [ih h.2.2 h'.2.2]

namespace Linked

theorem live_nodup (h : Linked s skip free) : (s.live.map Prod.snd).Nodup :=
  (List.nodup_append'.mp h.nodup).2.1

theorem ring_nodup (h : Linked s skip free) (pm : Nat) : (ring s pm).Nodup := by
  apply List.Nodup.sublist _ h.live_nodup
  exact List.filter_sublist.map _

theorem ring_sub (hm : m ∈ ring s pm) : m ∈ s.live.map Prod.snd :=
  List.mem_map.mpr ⟨(pm, m), mem_ring.mp hm, rfl⟩

theorem not_free (h : Linked s skip free) (hm : m ∈ ring s pm) : m ∉ free :=
  fun hfree => (List.nodup_append'.mp h.nodup).2.2 hfree (ring_sub hm)

theorem ring_unique (h : Linked s skip free) {pm' : Nat} (hm : m ∈ ring s pm) (hm' : m ∈ ring s pm')
    : pm = pm' := by
  have := List.inj_on_of_nodup_map h.live_nodup (mem_ring.mp hm) (mem_ring.mp hm') rfl
  exact congrArg Prod.fst this

theorem ring_eq (h : Linked s skip free) (hskip : some pm ≠ skip)
    (hne : (s.pagemap pm).vmMappings ≠ 0)
    : ∃ l, ring s pm = (s.pagemap pm).vmMappings :: l := by
  have hheads := h.heads pm hskip
  cases hring : ring s pm with
  | nil =>
    rw [hring] at hheads
    exact absurd hheads hne
  | cons _ l =>
    rw [hring] at hheads
    exact ⟨l, by rw [hheads]; rfl⟩

theorem pos (h : Linked s skip free) (hpages : PagesOk s.mapPages)
    (hm : m ∈ free ++ s.live.map Prod.snd) : 0 < m := by
  obtain ⟨pg, hpg, hin⟩ := h.inside m hm
  have := (hpages.2 pg hpg).2
  have := hin.1
  omega

theorem ring_pos (h : Linked s skip free) (hpages : PagesOk s.mapPages) (hm : m ∈ ring s pm)
    : 0 < m :=
  h.pos hpages (List.mem_append_right _ (ring_sub hm))

end Linked

structure SameMaps (s s' : State) : Prop where
  mapping : s'.mapping = s.mapping
  freeList : s'.mapFreeList = s.mapFreeList
  pages : s'.mapPages = s.mapPages
  live : s'.live = s.live
  heads : ∀ (pm : Nat), (s'.pagemap pm).vmMappings = (s.pagemap pm).vmMappings

theorem SameMaps.refl (s : State) : SameMaps s s :=
  ⟨rfl, rfl, rfl, rfl, fun _ => rfl⟩

theorem SameMaps.trans (h1 : SameMaps s1 s2) (h2 : SameMaps s2 s3) : SameMaps s1 s3 where
  mapping := h2.mapping.trans h1.mapping
  freeList := h2.freeList.trans h1.freeList
  pages := h2.pages.trans h1.pages
  live := h2.live.trans h1.live
  heads := fun pm => (h2.heads pm).trans (h1.heads pm)

theorem SameMaps.linked (h : SameMaps s s') (hl : Linked s skip free) : Linked s' skip free where
  chain := by
    rw [h.mapping, h.freeList]
    exact hl.chain
  nodup := by
    rw [h.live]
    exact hl.nodup
  inside := by
    rw [h.live, h.pages]
    exact hl.inside
  rings := by
    unfold ring
    rw [h.live, h.mapping]
    exact hl.rings
  heads := by
    unfold ring
    intro pm hpm
    rw [h.live, h.heads pm]
    exact hl.heads pm hpm

structure Fresh (s : State) (free : List Nat) (m : Nat) : Prop where
  free : m ∉ free
  live : m ∉ s.live.map Prod.snd
  inside : ∃ pg ∈ s.mapPages, InPage pg m

def pageChain (pg i n : Nat) : List Nat :=
  (List.range n).map fun j => pg + (i + j) * 40

theorem pageChain_succ (pg i n : Nat)
    : pageChain pg i (n + 1) = (pg + i * 40) :: pageChain pg (i + 1) n := by
  unfold pageChain
  rw [List.range_succ_eq_map, List.map_cons, List.map_map]
  simp only [Nat.add_zero, List.cons.injEq, true_and]
  apply List.map_congr_left
  intro j _
  simp only [Function.comp_apply]
  omega

theorem chainPage_chain (mapping : Nat → Mapping) (pg : Nat) {i : Nat} (hi : 0 < i) (hn : 0 < n)
    (hsum : i + n = 102)
    : FreeChain (chainPage mapping pg) (pg + i * 40) (pageChain pg i n) := by
  induction n generalizing i with
  | zero => omega
  | succ n ih =>
    rw [pageChain_succ]
    refine ⟨rfl, by omega, ?_⟩
    have hin : pg < pg + i * 40 ∧ pg + i * 40 < pg + 102 * 40 ∧ (pg + i * 40 - pg) % 40 = 0 := by
      omega
    simp only [nextOf, chainPage]
    rw [if_pos hin]
    cases n with
    | zero =>
      rw [if_neg (by omega)]
      rfl
    | succ =>
      rw [if_pos (by omega)]
      have := ih (i := i + 1) (by omega) (by omega) (by omega)
      rwa [Nat.add_mul, Nat.one_mul, ← Nat.add_assoc] at this

theorem pageChain_nodup (pg i n : Nat) : (pageChain pg i n).Nodup := by
  unfold pageChain
  apply List.Nodup.map _ List.nodup_range
  intro j k hjk
  simp only at hjk
  omega

theorem mem_pageChain {i : Nat} (hm : m ∈ pageChain pg i n)
    : ∃ (j : Nat), j < n ∧ m = pg + (i + j) * 40 := by
  unfold pageChain at hm
  simp only [List.mem_map, List.mem_range] at hm
  obtain ⟨j, hj, hm⟩ := hm
  exact ⟨j, hj, hm.symm⟩

theorem Linked.not_inPage (h : Linked s skip free) (hpages : PagesOk (pg :: s.mapPages))
    (hm : InPage pg m) : m ∉ free ++ s.live.map Prod.snd := by
  intro hmem
  obtain ⟨pg', hpg', hin⟩ := h.inside m hmem
  have hne : pg ≠ pg' := fun heq => (List.nodup_cons.mp hpages.1).1 (heq ▸ hpg')
  have h1 := (hpages.2 pg (by simp)).1
  have h2 := (hpages.2 pg' (List.mem_cons_of_mem _ hpg')).1
  have h3 := hm.1
  have h4 := hm.2.1
  have h5 := hin.1
  have h6 := hin.2.1
  omega

theorem PagesOk.suffix {pages pages' : List Nat} (h : PagesOk pages') (hsuf : pages <:+ pages')
    : PagesOk pages :=
  ⟨List.Nodup.sublist hsuf.sublist h.1, fun pg hpg => h.2 pg (hsuf.subset hpg)⟩

theorem Linked.free_nil (h : Linked s skip free) (hzero : s.mapFreeList = 0) : free = [] := by
  cases free with
  | nil => rfl
  | cons => exact absurd (h.chain.1.symm.trans hzero) h.chain.2.1

theorem Linked.grow (h : Linked s skip []) (hpages : PagesOk (pg :: s.mapPages))
    (hmapping : s'.mapping = chainPage s.mapping pg) (hfree : s'.mapFreeList = pg + 40)
    (hmapPages : s'.mapPages = pg :: s.mapPages) (hlive : s'.live = s.live)
    (hpagemap : s'.pagemap = s.pagemap)
    : Linked s' skip (pageChain pg 1 101) ∧ Fresh s' (pageChain pg 1 101) pg := by
  have hin : ∀ (m : Nat), m ∈ pageChain pg 1 101 → InPage pg m ∧ m ≠ pg := by
    intro m hm
    obtain ⟨j, hj, rfl⟩ := mem_pageChain hm
    unfold InPage
    omega
  have hold : ∀ (m : Nat), InPage pg m → m ∉ s.live.map Prod.snd := by
    intro m hm
    have := h.not_inPage hpages hm
    rwa [List.nil_append] at this
  -- the records that are in use are not in the new page
  have hsame : ∀ (m : Nat), m ∈ s.live.map Prod.snd → s'.mapping m = s.mapping m := by
    intro m hm
    rw [hmapping, chainPage, if_neg]
    intro hpage
    exact hold m ⟨Nat.le_of_lt hpage.1, hpage.2⟩ hm
  have hring : ∀ (pm : Nat), ring s' pm = ring s pm := by
    intro pm
    unfold ring
    rw [hlive]
  constructor
  . constructor
    case chain =>
      rw [hmapping, hfree]
      have := chainPage_chain s.mapping pg (i := 1) (n := 101) (by omega) (by omega) rfl
      rwa [Nat.one_mul] at this
    case nodup =>
      rw [hlive]
      apply List.nodup_append'.mpr
      refine ⟨pageChain_nodup _ _ _, h.live_nodup, ?_⟩
      intro m hm
      exact hold m (hin m hm).1
    case inside =>
      intro m hm
      rw [hmapPages]
      rw [hlive, List.mem_append] at hm
      cases hm with
      | inl hmem => exact ⟨pg, by simp, (hin m hmem).1⟩
      | inr hmem =>
        obtain ⟨pg', hpg', hin'⟩ := h.inside m (by simpa using hmem)
        exact ⟨pg', List.mem_cons_of_mem _ hpg', hin'⟩
    case rings =>
      intro pm
      rw [hring]
      apply (h.rings pm).congr
      . intro x hx
        rw [nextOf, hsame x (Linked.ring_sub hx)]
        rfl
      . intro x hx
        rw [prevOf, hsame x (Linked.ring_sub hx)]
        rfl
    case heads =>
      intro pm hpm
      rw [hring, hpagemap]
      exact h.heads pm hpm
  . have hpage : InPage pg pg := by
      unfold InPage
      omega
    constructor
    case free => exact fun hmem => (hin pg hmem).2 rfl
    case live =>
      rw [hlive]
      exact hold pg hpage
    case inside =>
      rw [hmapPages]
      exact ⟨pg, by simp, hpage⟩

theorem Linked.pop (h : Linked s skip (m :: free)) (hmapping : s'.mapping = s.mapping)
    (hfree : s'.mapFreeList = nextOf s.mapping m) (hpages : s'.mapPages = s.mapPages)
    (hlive : s'.live = s.live) (hpagemap : s'.pagemap = s.pagemap)
    : Linked s' skip free ∧ Fresh s' free m := by
  have hnodup := h.nodup
  rw [List.cons_append, List.nodup_cons] at hnodup
  constructor
  . constructor
    case chain =>
      rw [hmapping, hfree]
      exact h.chain.2.2
    case nodup =>
      rw [hlive]
      exact hnodup.2
    case inside =>
      rw [hlive, hpages]
      exact fun x hx => h.inside x (List.mem_cons_of_mem _ hx)
    case rings =>
      unfold ring
      rw [hlive, hmapping]
      exact h.rings
    case heads =>
      unfold ring
      rw [hlive, hpagemap]
      exact h.heads
  . have hm := hnodup.1
    rw [List.mem_append, not_or] at hm
    constructor
    case free => exact hm.1
    case live =>
      rw [hlive]
      exact hm.2
    case inside =>
      rw [hpages]
      exact h.inside m (by simp)

theorem mapAllocNode_pages (hrun : mapAllocNode s = .ok (m, s')) : s.mapPages <:+ s'.mapPages := by
  unfold mapAllocNode at hrun
  split at hrun
  next =>
    obtain ⟨⟨ptr, t⟩, hreq, hrun⟩ := bind_ok.mp hrun
    have hpages : t.mapPages = s.mapPages := by rw [request_rest hreq]
    cases ptr with
    | none =>
      cases hrun
      exact hpages ▸ List.suffix_refl _
    | some =>
      cases hrun
      exact hpages ▸ List.suffix_cons _ _
  next =>
    cases hrun
    exact List.suffix_refl _

theorem mapAllocNode_ok (h : Linked s skip free) (hrun : mapAllocNode s = .ok (m, s'))
    (hpages : PagesOk s'.mapPages)
    : (m = 0 ∧ Linked s' skip free) ∨ ∃ free', Linked s' skip free' ∧ Fresh s' free' m := by
  unfold mapAllocNode at hrun
  split at hrun
  next hempty =>
    obtain ⟨⟨ptr, t⟩, hreq, hrun⟩ := bind_ok.mp hrun
    have ht := request_rest hreq
    cases ptr with
    | none =>
      cases hrun
      have hsame : SameMaps s s' := by
        rw [ht]
        exact ⟨rfl, rfl, rfl, rfl, fun _ => rfl⟩
      exact .inl ⟨rfl, hsame.linked h⟩
    | some =>
      cases hrun
      have hmapPages : t.mapPages = s.mapPages := by rw [ht]
      simp only [hmapPages] at hpages
      have hnil := h.free_nil hempty
      subst hnil
      refine .inr ⟨_, h.grow hpages ?_ rfl ?_ ?_ ?_⟩
      all_goals rw [ht]
  next hne =>
    cases hrun
    right
    cases free with
    | nil => exact absurd h.chain hne
    | cons _ l =>
      have hm := h.chain.1
      rw [hm]
      refine ⟨l, h.pop rfl ?_ rfl rfl rfl⟩
      rw [nextOf, ← hm]

theorem ring_append (hlive : s'.live = s.live ++ [(pm, m)]) (pm' : Nat)
    : ring s' pm' = if pm' = pm then ring s pm' ++ [m] else ring s pm' := by
  unfold ring
  rw [hlive, List.filter_append, List.map_append]
  split
  next heq => simp [heq]
  next hne =>
    have : ¬pm = pm' := fun heq => hne heq.symm
    simp [this]

theorem nodup_append (hnodup : (free ++ s.live.map Prod.snd).Nodup) (hfresh : Fresh s free m)
    (hlive : s'.live = s.live ++ [(pm, m)]) : (free ++ s'.live.map Prod.snd).Nodup := by
  rw [hlive, List.map_append, ← List.append_assoc]
  apply List.nodup_append'.mpr
  refine ⟨hnodup, by simp, ?_⟩
  intro x hx hm
  rw [List.map_singleton, List.mem_singleton] at hm
  rw [hm, List.mem_append] at hx
  cases hx with
  | inl hmem => exact hfresh.free hmem
  | inr hmem => exact hfresh.live hmem

theorem inside_append (hinside : ∀ (x : Nat), x ∈ free ++ s.live.map Prod.snd
    → ∃ pg ∈ s.mapPages, InPage pg x)
    (hfresh : Fresh s free m) (hlive : s'.live = s.live ++ [(pm, m)])
    (hx : x ∈ free ++ s'.live.map Prod.snd) : ∃ pg ∈ s.mapPages, InPage pg x := by
  rw [hlive, List.map_append, ← List.append_assoc, List.mem_append, List.map_singleton,
    List.mem_singleton] at hx
  cases hx with
  | inl hmem => exact hinside x hmem
  | inr heq => exact heq ▸ hfresh.inside

theorem Linked.link (h : Linked s none free) (hfresh : Fresh s free m)
    (hhead : (s.pagemap pm).vmMappings = head) (hne : head ≠ 0)
    (hnext : nextOf s'.mapping = update (update (nextOf s.mapping) m head)
      (prevOf s.mapping head) m)
    (hprev : prevOf s'.mapping = update (update (prevOf s.mapping) m
      (prevOf s.mapping head)) head m)
    (hfree : s'.mapFreeList = s.mapFreeList) (hmapPages : s'.mapPages = s.mapPages)
    (hlive : s'.live = s.live ++ [(pm, m)]) (hpagemap : s'.pagemap = s.pagemap)
    : Linked s' none free := by
  obtain ⟨l, hl⟩ := h.ring_eq (by simp) (hhead ▸ hne)
  rw [hhead] at hl
  have hhead_mem : head ∈ ring s pm := by simp [hl]
  have hprev_mem := (h.rings pm).prev_mem hhead_mem
  have hm_ring : ∀ (pm' : Nat), m ∉ ring s pm' := fun pm' hm => hfresh.live (ring_sub hm)
  have hne_m : ∀ (x : Nat), x ∈ ring s pm → x ≠ m := fun x hx heq => hm_ring pm (heq ▸ hx)
  constructor
  case chain =>
    rw [hfree]
    apply h.chain.congr
    intro x hx
    rw [hnext, update_of_ne, update_of_ne]
    . exact fun heq => hfresh.free (heq ▸ hx)
    . exact fun heq => h.not_free hprev_mem (heq ▸ hx)
  case nodup => exact nodup_append h.nodup hfresh hlive
  case inside =>
    rw [hmapPages]
    exact fun x hx => inside_append h.inside hfresh hlive hx
  case rings =>
    intro pm'
    rw [ring_append hlive]
    split
    next heq =>
      rw [heq, hl, List.cons_append]
      have hring := h.rings pm
      rw [hl] at hring
      have hnodup := h.ring_nodup pm
      rw [hl] at hnodup
      have hsub : ∀ (x : Nat), x ∈ head :: l → x ≠ m := fun x hx => hne_m x (by rw [hl]; exact hx)
      apply hring.insert hnodup
      . intro x hx hlast
        rw [hnext, update_of_ne hlast, update_of_ne (hsub x hx)]
      . intro x hx
        rw [hprev, update_of_ne, update_of_ne (hsub x (List.mem_cons_of_mem _ hx))]
        rintro rfl
        exact (List.nodup_cons.mp hnodup).1 hx
      . rw [hnext, update_self]
      . rw [hnext, hprev]
        constructor
        . rw [update_of_ne (hne_m head hhead_mem).symm, update_self]
        . rw [update_of_ne (hne_m _ hprev_mem).symm, update_self]
      . rw [hprev, update_self]
    next hpm =>
      have hother : ∀ (x : Nat), x ∈ ring s pm' → x ∉ ring s pm :=
        fun x hx hx' => hpm (h.ring_unique hx hx')
      apply (h.rings pm').congr
      . intro x hx
        rw [hnext, update_of_ne, update_of_ne]
        . exact fun heq => hm_ring pm' (heq ▸ hx)
        . exact fun heq => hother x hx (heq ▸ hprev_mem)
      . intro x hx
        rw [hprev, update_of_ne, update_of_ne]
        . exact fun heq => hm_ring pm' (heq ▸ hx)
        . exact fun heq => hother x hx (heq ▸ hhead_mem)
  case heads =>
    intro pm' hpm'
    rw [hpagemap, h.heads pm' hpm', ring_append hlive]
    split
    next heq =>
      rw [heq, hl]
      rfl
    next => rfl

theorem Linked.start (h : Linked s none free) (hfresh : Fresh s free m)
    (hpages : PagesOk s.mapPages) (hhead : (s.pagemap pm).vmMappings = 0)
    (hnext : nextOf s'.mapping = update (nextOf s.mapping) m m)
    (hprev : prevOf s'.mapping = update (prevOf s.mapping) m m)
    (hfree : s'.mapFreeList = s.mapFreeList) (hmapPages : s'.mapPages = s.mapPages)
    (hlive : s'.live = s.live ++ [(pm, m)])
    (hpagemap : s'.pagemap = update s.pagemap pm { s.pagemap pm with vmMappings := m })
    : Linked s' none free := by
  have hheads := h.heads pm (by simp)
  rw [hhead] at hheads
  have hl : ring s pm = [] := by
    cases hring : ring s pm with
    | nil => rfl
    | cons a =>
      have ha : a ∈ ring s pm := by simp [hring]
      have hpos := h.ring_pos hpages ha
      rw [hring] at hheads
      simp only [List.headD_cons] at hheads
      omega
  have hm_ring : ∀ (pm' : Nat), m ∉ ring s pm' := fun pm' hm => hfresh.live (ring_sub hm)
  constructor
  case chain =>
    rw [hfree]
    apply h.chain.congr
    intro x hx
    rw [hnext, update_of_ne]
    exact fun heq => hfresh.free (heq ▸ hx)
  case nodup => exact nodup_append h.nodup hfresh hlive
  case inside =>
    rw [hmapPages]
    exact fun x hx => inside_append h.inside hfresh hlive hx
  case rings =>
    intro pm'
    rw [ring_append hlive]
    split
    next heq =>
      rw [heq, hl]
      constructor
      . rw [hnext, update_self]
      . rw [hprev, update_self]
    next hpm =>
      apply (h.rings pm').congr
      . intro x hx
        rw [hnext, update_of_ne]
        exact fun heq => hm_ring pm' (heq ▸ hx)
      . intro x hx
        rw [hprev, update_of_ne]
        exact fun heq => hm_ring pm' (heq ▸ hx)
  case heads =>
    intro pm' hpm'
    rw [hpagemap, ring_append hlive]
    split
    next heq =>
      rw [heq, hl, update_self]
      rfl
    next hpm =>
      rw [update_of_ne hpm]
      exact h.heads pm' hpm'

theorem nextOf_setMapping (s : State) (ptr : Nat) (mapping : Mapping)
    : nextOf (s.setMapping ptr mapping).mapping = update (nextOf s.mapping) ptr mapping.next := by
  funext x
  simp only [nextOf, State.setMapping, update_apply]
  split <;> rfl

theorem prevOf_setMapping (s : State) (ptr : Nat) (mapping : Mapping)
    : prevOf (s.setMapping ptr mapping).mapping = update (prevOf s.mapping) ptr mapping.prev := by
  funext x
  simp only [prevOf, State.setMapping, update_apply]
  split <;> rfl

theorem setNext_ok {next : Nat} (h : setNext s ptr next = .ok s')
    : ptr ≠ 0 ∧ nextOf s'.mapping = update (nextOf s.mapping) ptr next
      ∧ prevOf s'.mapping = prevOf s.mapping
      ∧ s' = { s with mapping := s'.mapping } := by
  unfold setNext at h
  split at h
  next => cases h
  next hne =>
    cases h
    refine ⟨hne, nextOf_setMapping .., ?_, rfl⟩
    rw [prevOf_setMapping]
    exact update_eq_self ..

theorem setPrev_ok {prev : Nat} (h : setPrev s ptr prev = .ok s')
    : ptr ≠ 0 ∧ prevOf s'.mapping = update (prevOf s.mapping) ptr prev
      ∧ nextOf s'.mapping = nextOf s.mapping
      ∧ s' = { s with mapping := s'.mapping } := by
  unfold setPrev at h
  split at h
  next => cases h
  next hne =>
    cases h
    refine ⟨hne, prevOf_setMapping .., ?_, rfl⟩
    rw [nextOf_setMapping]
    exact update_eq_self ..

theorem link_writes (hne : head ≠ m)
    (h1 : setPrev s m (s.mapping head).prev = .ok s1) (h2 : setNext s1 m head = .ok s2)
    (h3 : setNext s2 (s2.mapping head).prev m = .ok s3) (h4 : setPrev s3 head m = .ok s')
    : nextOf s'.mapping = update (update (nextOf s.mapping) m head) (prevOf s.mapping head) m
      ∧ prevOf s'.mapping = update
      (update (prevOf s.mapping) m (prevOf s.mapping head)) head m := by
  obtain ⟨-, hp1, hn1, -⟩ := setPrev_ok h1
  obtain ⟨-, hn2, hp2, -⟩ := setNext_ok h2
  obtain ⟨-, hn3, hp3, -⟩ := setNext_ok h3
  obtain ⟨-, hp4, hn4, -⟩ := setPrev_ok h4
  have hp : (s2.mapping head).prev = prevOf s.mapping head := by
    show prevOf s2.mapping head = _
    rw [hp2, hp1, update_of_ne hne]
  constructor
  . rw [hn4, hn3, hn2, hn1, hp]
  . rw [hp4, hp3, hp2, hp1]
    rfl

theorem newMapping_cases {start pageCount : Nat} {flags : BitVec 64}
    (hrun : newMapping s pm start pageCount flags = .ok s')
    : ∃ m t, mapAllocNode s = .ok (m, t) ∧ (m = 0 ∧ s' = t ∨ m ≠ 0 ∧ ∃ mapping,
      (∃ head, (t.pagemap pm).vmMappings = head ∧ head ≠ 0
        ∧ s' = { t with mapping, live := t.live ++ [(pm, m)] }
        ∧ (head ≠ m → nextOf mapping = update (update (nextOf t.mapping) m head)
          (prevOf t.mapping head) m
          ∧ prevOf mapping = update (update (prevOf t.mapping) m (prevOf t.mapping head)) head m))
      ∨ (t.pagemap pm).vmMappings = 0 ∧ nextOf mapping = update (nextOf t.mapping) m m
        ∧ prevOf mapping = update (prevOf t.mapping) m m
        ∧ s' = { t with
            mapping
            live := t.live ++ [(pm, m)]
            pagemap := update t.pagemap pm { t.pagemap pm with vmMappings := m } }) := by
  obtain ⟨⟨m, t⟩, halloc, hrun⟩ := bind_ok.mp hrun
  refine ⟨m, t, halloc, ?_⟩
  simp only at hrun
  split at hrun
  next hm =>
    cases hrun
    exact .inl ⟨hm, rfl⟩
  next hm =>
    have hnext : nextOf (t.setMapping m { t.mapping m with start, pageCount, flags }).mapping
        = nextOf t.mapping := by
      rw [nextOf_setMapping]
      exact update_eq_self ..
    have hprev : prevOf (t.setMapping m { t.mapping m with start, pageCount, flags }).mapping
        = prevOf t.mapping := by
      rw [prevOf_setMapping]
      exact update_eq_self ..
    refine .inr ⟨hm, s'.mapping, ?_⟩
    split at hrun
    next hhead =>
      obtain ⟨s1, hs1, hrun⟩ := bind_ok.mp hrun
      obtain ⟨s2, hs2, hrun⟩ := bind_ok.mp hrun
      obtain ⟨s3, hs3, hrun⟩ := bind_ok.mp hrun
      refine .inl ⟨_, rfl, hhead, ?_, fun hne => ?_⟩
      . rw [(setPrev_ok hrun).2.2.2, (setNext_ok hs3).2.2.2, (setNext_ok hs2).2.2.2,
          (setPrev_ok hs1).2.2.2]
        rfl
      . have hwrites := link_writes hne hs1 hs2 hs3 hrun
        rw [← hnext, ← hprev]
        exact hwrites
    next hhead =>
      obtain ⟨s1, hs1, hrun⟩ := bind_ok.mp hrun
      obtain ⟨s2, hs2, hrun⟩ := bind_ok.mp hrun
      obtain ⟨-, hp1, hn1, hs1⟩ := setPrev_ok hs1
      obtain ⟨-, hn2, hp2, hs2⟩ := setNext_ok hs2
      cases hrun
      refine .inr ⟨Classical.not_not.mp hhead, ?_, ?_, ?_⟩
      . rw [← hnext]
        exact hn2.trans (by rw [hn1])
      . rw [← hprev]
        exact hp2.trans hp1
      . rw [hs2, hs1]
        unfold State.setPagemap
        congr 1
        funext a
        rw [update_apply]
        rfl

theorem newMapping_pages {start pageCount : Nat} {flags : BitVec 64}
    (hrun : newMapping s pm start pageCount flags = .ok s') : s.mapPages <:+ s'.mapPages := by
  obtain ⟨m, t, halloc, hcases⟩ := newMapping_cases hrun
  have hsuf := mapAllocNode_pages halloc
  rcases hcases with ⟨-, rfl⟩ | ⟨-, mapping, ⟨head, -, -, rfl, -⟩ | ⟨-, -, -, rfl⟩⟩
  . exact hsuf
  . exact hsuf
  . exact hsuf

theorem newMapping_ok {start pageCount : Nat} {flags : BitVec 64} (h : Linked s none free)
    (hrun : newMapping s pm start pageCount flags = .ok s') (hpages : PagesOk s'.mapPages)
    : ∃ free', Linked s' none free' := by
  obtain ⟨m, t, halloc, hcases⟩ := newMapping_cases hrun
  have hok := mapAllocNode_ok h halloc
  have hfresh : m ≠ 0 → PagesOk t.mapPages → ∃ free', Linked t none free' ∧ Fresh t free' m := by
    intro hm hpages
    rcases hok hpages with ⟨hzero, -⟩ | hfresh
    . exact absurd hzero hm
    . exact hfresh
  rcases hcases with ⟨-, rfl⟩
    | ⟨hm, mapping, ⟨head, hhead, hne, rfl, hwrites⟩ | ⟨hhead, hn, hp, rfl⟩⟩
  . rcases hok hpages with ⟨-, hl⟩ | ⟨free', hl, -⟩
    . exact ⟨free, hl⟩
    . exact ⟨free', hl⟩
  . obtain ⟨free', hl, hfresh⟩ := hfresh hm hpages
    have hnew : head ≠ m := by
      rintro rfl
      obtain ⟨l, hring⟩ := hl.ring_eq (by simp) (hhead ▸ hne)
      exact hfresh.live (Linked.ring_sub (show _ ∈ ring t pm by simp [hring, hhead]))
    obtain ⟨hn, hp⟩ := hwrites hnew
    exact ⟨free', hl.link hfresh hhead hne hn hp rfl rfl rfl rfl⟩
  . obtain ⟨free', hl, hfresh⟩ := hfresh hm hpages
    exact ⟨free', hl.start hfresh hpages hhead hn hp rfl rfl rfl rfl⟩

theorem ring_filter (hlive : s'.live = s.live.filter fun x => x.2 != m) (pm : Nat)
    : ring s' pm = (ring s pm).filter fun x => x != m := by
  unfold ring
  rw [hlive, List.filter_map, List.filter_filter, List.filter_filter]
  congr 1
  apply List.filter_congr
  intro x _
  simp only [Function.comp_apply, Bool.and_comm]

theorem filter_ne_of_not_mem {l : List Nat} (h : m ∉ l) : (l.filter fun x => x != m) = l := by
  rw [List.filter_eq_self]
  intro x hx
  simp only [bne_iff_ne, ne_eq]
  exact fun heq => h (heq ▸ hx)

/--
The record `m` is taken out of its ring and put onto the free list.
-/
structure Unlinked (s s' : State) (m : Nat) : Prop where
  next : nextOf s'.mapping = update (update (nextOf s.mapping) (prevOf s.mapping m)
    (nextOf s.mapping m)) m s.mapFreeList
  prev : prevOf s'.mapping = update (prevOf s.mapping) (nextOf s.mapping m) (prevOf s.mapping m)
  mapFreeList : s'.mapFreeList = m
  mapPages : s'.mapPages = s.mapPages
  live : s'.live = s.live.filter fun x => x.2 != m
  pagemap : s'.pagemap = s.pagemap

section

variable (h : Linked s skip free) (hu : Unlinked s s' m) (hm : m ∈ ring s pm)
include h hu hm

theorem Linked.unlink_ring
    : IsRing (nextOf s'.mapping) (prevOf s'.mapping) ((ring s pm).filter fun x => x != m) := by
  obtain ⟨l1, l2, hl⟩ := List.append_of_mem hm
  have hnodup := h.ring_nodup pm
  have hring := h.rings pm
  rw [hl] at hnodup hring
  have hmid := (List.nodup_cons.mp (List.nodup_middle.mp hnodup)).1
  have hrest : (ring s pm).filter (fun x => x != m) = l1 ++ l2 := by
    rw [hl, List.filter_append, List.filter_cons]
    simp only [bne_self_eq_false, Bool.false_eq_true, if_false]
    rw [← List.filter_append, filter_ne_of_not_mem hmid]
  rw [hrest]
  -- the links without `m`, before it is put onto the free list
  have hlinks : IsRing (update (nextOf s.mapping) (prevOf s.mapping m) (nextOf s.mapping m))
      (prevOf s'.mapping) (l1 ++ l2) := by
    apply hring.remove hnodup
    . exact fun x _ hx => update_of_ne hx ..
    . intro x _ hx
      rw [hu.prev, update_of_ne hx]
    . rw [update_self]
    . rw [hu.prev, update_self]
  apply hlinks.congr
  . intro x hx
    rw [hu.next, update_of_ne]
    exact fun heq => hmid (heq ▸ hx)
  . exact fun _ _ => rfl

theorem Linked.unlink_ring_of_ne {pm' : Nat} (hpm : pm' ≠ pm)
    : IsRing (nextOf s'.mapping) (prevOf s'.mapping) ((ring s pm').filter fun x => x != m) := by
  have hnext_mem := (h.rings pm).next_mem hm
  have hprev_mem := (h.rings pm).prev_mem hm
  have hother : ∀ (x : Nat), x ∈ ring s pm' → x ∉ ring s pm :=
    fun x hx hx' => hpm (h.ring_unique hx hx')
  rw [filter_ne_of_not_mem fun hmem => hother m hmem hm]
  apply (h.rings pm').congr
  . intro x hx
    rw [hu.next, update_of_ne, update_of_ne]
    . exact fun heq => hother x hx (heq ▸ hprev_mem)
    . exact fun heq => hother x hx (heq ▸ hm)
  . intro x hx
    rw [hu.prev, update_of_ne]
    exact fun heq => hother x hx (heq ▸ hnext_mem)

theorem Linked.unlink_chain (hzero : m ≠ 0)
    : FreeChain s'.mapping s'.mapFreeList (m :: free) := by
  have hprev_mem := (h.rings pm).prev_mem hm
  refine ⟨hu.mapFreeList, hzero, ?_⟩
  rw [hu.next, update_self]
  apply h.chain.congr
  intro x hx
  rw [hu.next, update_of_ne, update_of_ne]
  . exact fun heq => h.not_free hprev_mem (heq ▸ hx)
  . exact fun heq => h.not_free hm (heq ▸ hx)

theorem Linked.unlink (hzero : m ≠ 0) (hhead : some pm ≠ skip → (s.pagemap pm).vmMappings ≠ m)
    : Linked s' skip (m :: free) := by
  have hsub : (s'.live.map Prod.snd).Sublist (s.live.map Prod.snd) := by
    rw [hu.live]
    exact List.filter_sublist.map _
  have hgone : m ∉ s'.live.map Prod.snd := by
    rw [hu.live]
    simp
  constructor
  case chain => exact h.unlink_chain hu hm hzero
  case nodup =>
    rw [List.cons_append, List.nodup_cons, List.mem_append, not_or]
    refine ⟨⟨h.not_free hm, hgone⟩, ?_⟩
    exact List.Nodup.sublist (List.Sublist.append_left hsub free) h.nodup
  case inside =>
    rw [hu.mapPages]
    intro x hx
    apply h.inside
    rw [List.cons_append, List.mem_cons] at hx
    cases hx with
    | inl heq => exact heq ▸ List.mem_append_right _ (ring_sub hm)
    | inr hmem => exact (List.Sublist.append_left hsub free).subset hmem
  case rings =>
    intro pm'
    rw [ring_filter hu.live]
    by_cases hpm : pm' = pm
    . exact hpm ▸ h.unlink_ring hu hm
    . exact h.unlink_ring_of_ne hu hm hpm
  case heads =>
    intro pm' hpm'
    rw [hu.pagemap, h.heads pm' hpm', ring_filter hu.live]
    cases hring : ring s pm' with
    | nil => rfl
    | cons a =>
      have hne : a ≠ m := by
        rintro rfl
        have heq : pm' = pm := h.ring_unique (by simp [hring]) hm
        subst heq
        apply hhead hpm'
        rw [h.heads pm' hpm', hring]
        rfl
      rw [List.filter_cons, if_pos (by simpa using hne)]
      rfl

end

theorem removeMapping_writes (hrun : removeMapping s m = .ok s')
    : m ≠ 0 ∧ nextOf s'.mapping = update (update (nextOf s.mapping) (prevOf s.mapping m)
        (nextOf s.mapping m)) m s.mapFreeList
      ∧ prevOf s'.mapping = update (prevOf s.mapping) (nextOf s.mapping m) (prevOf s.mapping m)
      ∧ s' = { s with
          mapping := s'.mapping
          mapFreeList := m
          live := s.live.filter fun x => x.2 != m } := by
  obtain ⟨s1, h1, hrun⟩ := bind_ok.mp hrun
  obtain ⟨s2, h2, hrun⟩ := bind_ok.mp hrun
  obtain ⟨s3, h3, hrun⟩ := bind_ok.mp hrun
  obtain ⟨-, hp1, hn1, hs1⟩ := setPrev_ok h1
  obtain ⟨-, hn2, hp2, hs2⟩ := setNext_ok h2
  obtain ⟨hzero, hn3, hp3, hs3⟩ := setNext_ok h3
  cases hrun
  have hp : (s1.mapping m).prev = prevOf s.mapping m := by
    show prevOf s1.mapping m = _
    rw [hp1, update_apply]
    split <;> rfl
  have hn : (s1.mapping m).next = nextOf s.mapping m := congrFun hn1 m
  have hfree : s2.mapFreeList = s.mapFreeList := by rw [hs2, hs1]
  refine ⟨hzero, ?_, ?_, ?_⟩
  . show nextOf s3.mapping = _
    rw [hn3, hn2, hn1, hp, hn]
    simp only [hfree]
  . show prevOf s3.mapping = _
    rw [hp3, hp2, hp1]
    rfl
  . rw [hs3, hs2, hs1]

structure RecordsOnly (s s' : State) : Prop where
  rest : s' = { s with mapping := s'.mapping, mapFreeList := s'.mapFreeList, live := s'.live }

namespace RecordsOnly

theorem refl (s : State) : RecordsOnly s s :=
  ⟨rfl⟩

theorem trans (h1 : RecordsOnly s1 s2) (h2 : RecordsOnly s2 s3) : RecordsOnly s1 s3 where
  rest := by rw [h2.rest, h1.rest]

theorem removeMapping (h : removeMapping s m = .ok s') : RecordsOnly s s' where
  rest := by rw [(removeMapping_writes h).2.2.2]

theorem removeMappingAt {stop fuel : Nat} (h : removeMappingAt s ptr stop fuel m = .ok s')
    : RecordsOnly s s' := by
  induction fuel generalizing m with
  | zero => cases h
  | succ _ ih =>
    unfold VMM.removeMappingAt at h
    split at h
    next => cases h
    next =>
      split at h
      next => exact removeMapping h
      next =>
        split at h
        next =>
          cases h
          exact refl _
        next => exact ih h

theorem removeMappings (h : removeMappings s n m = .ok s') : RecordsOnly s s' := by
  induction n generalizing s m with
  | zero =>
    cases h
    exact refl _
  | succ _ ih =>
    unfold VMM.removeMappings at h
    split at h
    next => cases h
    next =>
      obtain ⟨t, ht, h⟩ := bind_ok.mp h
      exact (removeMapping ht).trans (ih h)

end RecordsOnly

theorem removeMapping_ok (h : Linked s skip free) (hm : m ∈ ring s pm)
    (hhead : some pm ≠ skip → (s.pagemap pm).vmMappings ≠ m) (hrun : removeMapping s m = .ok s')
    : Linked s' skip (m :: free) := by
  obtain ⟨hzero, hn, hp, hrest⟩ := removeMapping_writes hrun
  refine h.unlink ⟨hn, hp, ?_, ?_, ?_, ?_⟩ hm hzero hhead
  all_goals rw [hrest]

theorem removeMappingAt_ok (fuel : Nat) (l1 : List Nat) {l2 : List Nat}
    (hring : IsRing (nextOf s.mapping) (prevOf s.mapping) (head :: l1 ++ x :: l2))
    (hrun : removeMappingAt s ptr head fuel x = .ok s')
    : s' = s ∨ ∃ m ∈ x :: l2, removeMapping s m = .ok s' := by
  induction fuel generalizing x l1 l2 with
  | zero => cases hrun
  | succ _ ih =>
    unfold removeMappingAt at hrun
    split at hrun
    next => cases hrun
    next =>
      split at hrun
      next => exact .inr ⟨x, by simp, hrun⟩
      next =>
        split at hrun
        next =>
          cases hrun
          exact .inl rfl
        next hnext =>
          have hpath : Path (nextOf s.mapping) (prevOf s.mapping) head (l1 ++ x :: l2) head := hring
          rw [path_append] at hpath
          cases l2 with
          | nil => exact absurd hpath.2.1 hnext
          | cons y l2 =>
            have hy : (s.mapping x).next = y := hpath.2.1.1
            rw [hy] at hrun
            have hsplit : head :: l1 ++ x :: y :: l2 = head :: (l1 ++ [x]) ++ y :: l2 := by simp
            rw [hsplit] at hring
            rcases ih _ hring hrun with heq | ⟨m, hm, hremove⟩
            . exact .inl heq
            . exact .inr ⟨m, List.mem_cons_of_mem _ hm, hremove⟩

theorem removeMappingAt_head (fuel : Nat) {l : List Nat}
    (hring : IsRing (nextOf s.mapping) (prevOf s.mapping) (head :: l))
    (hstart : (s.mapping head).start ≠ ptr) (hrun : removeMappingAt s ptr head fuel head = .ok s')
    : s' = s ∨ ∃ m ∈ l, removeMapping s m = .ok s' := by
  cases fuel with
  | zero => cases hrun
  | succ fuel =>
    unfold removeMappingAt at hrun
    split at hrun
    next => cases hrun
    next =>
      split at hrun
      next =>
        cases hrun
        exact .inl rfl
      next hnext =>
        cases l with
        | nil => exact absurd hring.1 hnext
        | cons x =>
          have hx : (s.mapping head).next = x := hring.1.1
          rw [hx] at hrun
          exact removeMappingAt_ok fuel [] hring hrun

theorem countMappings_ok (fuel : Nat) {l : List Nat}
    (hpath : Path (nextOf s.mapping) (prevOf s.mapping) x l head) (hl : head ∉ l)
    (hrun : countMappings s head fuel x = .ok n) : n = l.length + 1 := by
  induction fuel generalizing x l n with
  | zero => cases hrun
  | succ _ ih =>
    unfold countMappings at hrun
    split at hrun
    next => cases hrun
    next =>
      cases l with
      | nil =>
        have hnext : (s.mapping x).next = head := hpath.1
        rw [if_pos hnext] at hrun
        cases hrun
        rfl
      | cons y =>
        have hnext : (s.mapping x).next = y := hpath.1.1
        have hne : ¬y = head := fun heq => hl (by simp [heq])
        rw [hnext, if_neg hne] at hrun
        obtain ⟨k, hk, hrun⟩ := bind_ok.mp hrun
        cases hrun
        have := ih hpath.2 (fun hmem => hl (List.mem_cons_of_mem _ hmem)) hk
        rw [this]
        rfl

theorem removeMappings_ok (l : List Nat) (h : Linked s (some pm) free) (hl : ring s pm = l)
    (hrun : removeMappings s l.length (l.headD 0) = .ok s')
    : (∃ free', Linked s' (some pm) free') ∧ ring s' pm = [] ∧ s'.mapPages = s.mapPages := by
  induction l generalizing s free with
  | nil =>
    cases hrun
    exact ⟨⟨free, h⟩, hl, rfl⟩
  | cons m l ih =>
    simp only [List.length_cons, List.headD_cons, removeMappings] at hrun
    split at hrun
    next => cases hrun
    next =>
      obtain ⟨t, ht, hrun⟩ := bind_ok.mp hrun
      have hm : m ∈ ring s pm := by simp [hl]
      have hlinked := removeMapping_ok h hm (fun hne => absurd rfl hne) ht
      obtain ⟨-, -, -, hrest⟩ := removeMapping_writes ht
      have hnodup := h.ring_nodup pm
      rw [hl, List.nodup_cons] at hnodup
      have hring : ring t pm = l := by
        have hlive : t.live = s.live.filter fun x => x.2 != m := by rw [hrest]
        rw [ring_filter hlive, hl, List.filter_cons]
        simp only [bne_self_eq_false, Bool.false_eq_true, if_false]
        rw [List.filter_eq_self]
        intro x hx
        simp only [bne_iff_ne, ne_eq]
        exact fun heq => hnodup.1 (heq ▸ hx)
      have hpages : t.mapPages = s.mapPages := by rw [hrest]
      have hnext : l ≠ [] → (s.mapping m).next = l.headD 0 := by
        intro hne
        have hr := h.rings pm
        rw [hl] at hr
        cases l with
        | nil => exact absurd rfl hne
        | cons => exact hr.1.1
      cases l with
      | nil =>
        cases hrun
        exact ⟨⟨_, hlinked⟩, hring, hpages⟩
      | cons =>
        rw [hnext (by simp)] at hrun
        obtain ⟨hfree, hempty, hpages'⟩ := ih hlinked hring hrun
        exact ⟨hfree, hempty, hpages'.trans hpages⟩

end

end VMM
