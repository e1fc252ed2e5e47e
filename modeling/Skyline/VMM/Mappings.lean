import Skyline.PMM.Run
import Skyline.Steps.Basic
import Skyline.VMM.Lemmas.Frame
import Skyline.VMM.Lemmas.Mapping

/-!
This module contains the operations that create and remove mapping records as a transition system.
-/

namespace VMM

open Ring

variable {start pageCount addr ptr : Nat} {flags : BitVec 64}

section

variable {s s' s1 s2 s3 : State} {pm : Nat} {free : List Nat}

theorem PagingOnly.sameMaps (h : PagingOnly s s') : SameMaps s s' := by
  constructor
  case heads =>
    intro pm
    rw [h.pagemap pm]
  all_goals rw [h.rest]

theorem SameMaps.setPagemap {map : Pagemap} (h : map.vmMappings = (s.pagemap pm).vmMappings)
    : SameMaps s (s.setPagemap pm map) := by
  refine ⟨rfl, rfl, rfl, rfl, fun a => ?_⟩
  simp only [State.setPagemap]
  split
  next heq => rw [h, heq]
  next => rfl

theorem SameMaps.vmaAllocNode {node : Option Nat} (h : vmaAllocNode s = .ok (node, s'))
    : SameMaps s s' := by
  unfold VMM.vmaAllocNode at h
  split at h
  next =>
    cases h
    exact ⟨rfl, rfl, rfl, rfl, fun _ => rfl⟩
  next =>
    obtain ⟨⟨ptr, t⟩, ht, h⟩ := bind_ok.mp h
    have hsame := (PagingOnly.handOut ht).sameMaps
    cases ptr with
    | none =>
      cases h
      exact hsame
    | some =>
      cases h
      exact ⟨hsame.mapping, hsame.freeList, hsame.pages, hsame.live, hsame.heads⟩

section

variable (map : Pagemap) (head r : Region)
include map head r

theorem mergeNext_mappings (next : List Region)
    : (mergeNext map head r next).2.1.vmMappings = map.vmMappings := by
  induction next generalizing map r with
  | nil => rfl
  | cons _ next ih =>
    unfold mergeNext
    split
    next => exact ih _ _
    next => rfl

theorem mergePrev_mappings (before : List Region)
    : (mergePrev map head r before).1.vmMappings = map.vmMappings := by
  induction before generalizing map r with
  | nil => rfl
  | cons _ _ ih =>
    unfold mergePrev
    split
    next => exact ih _ _
    next => rfl

theorem mergeAt_mappings
    : (mergeAt map head r).1.vmMappings = map.vmMappings :=
  (mergePrev_mappings _ _ _ _).trans (mergeNext_mappings _ _ _ _)

end

theorem SameMaps.freeNodes (s : State) (freed : List Nat)
    : SameMaps s (freed.foldl vmaFreeNode s) := by
  induction freed generalizing s with
  | nil => exact refl s
  | cons node _ ih =>
    have hnode : SameMaps s (vmaFreeNode s node) := ⟨rfl, rfl, rfl, rfl, fun _ => rfl⟩
    exact hnode.trans (ih _)

theorem SameMaps.setStart (h : setStart s pm start = .ok s') : SameMaps s s' := by
  unfold VMM.setStart at h
  split at h
  next =>
    cases h
    exact setPagemap rfl
  next =>
    obtain ⟨⟨node, t⟩, ht, h⟩ := bind_ok.mp h
    have hsame := vmaAllocNode ht
    cases node with
    | none =>
      cases h
      exact hsame
    | some =>
      cases h
      exact hsame.trans (setPagemap rfl)

theorem SameMaps.addRegion
    (h : addRegion s pm start pageCount flags = .ok s') : SameMaps s s' := by
  unfold VMM.addRegion at h
  split at h
  next =>
    cases h
    exact refl s
  next head hhead =>
    split at h
    next =>
      cases h
      exact refl s
    next =>
      obtain ⟨⟨node, t⟩, ht, h⟩ := bind_ok.mp h
      have hsame := vmaAllocNode ht
      cases node with
      | none =>
        cases h
        exact hsame
      | some =>
        cases h
        refine (hsame.trans (setPagemap ?_)).trans (freeNodes _ _)
        exact mergeAt_mappings _ _ _

theorem SameMaps.internalAlloc {hint rand : Nat}
    (h : internalAlloc s pm pageCount flags hint rand = .ok (addr, s')) : SameMaps s s' := by
  unfold VMM.internalAlloc at h
  split at h
  next =>
    split at h
    next =>
      cases h
      exact refl s
    next => cases h
  next =>
    split at h
    next =>
      cases h
      exact refl s
    next =>
      obtain ⟨⟨node, t⟩, ht, h⟩ := bind_ok.mp h
      have hsame := vmaAllocNode ht
      cases node with
      | none =>
        cases h
        exact hsame
      | some =>
        cases h
        exact hsame.trans (setPagemap rfl)

theorem SameMaps.removeRegion (s : State) (pm node : Nat)
    : SameMaps s (removeRegion s pm node) := by
  unfold VMM.removeRegion
  split
  next => exact refl s
  next head _ =>
    have hset : SameMaps s (s.setPagemap pm (unlinkRegion (s.pagemap pm) head node)) :=
      setPagemap rfl
    exact ⟨hset.mapping, hset.freeList, hset.pages, hset.live, hset.heads⟩

structure Keeps (s s' : State) : Prop where
  pages : s.mapPages <:+ s'.mapPages
  linked : PagesOk s'.mapPages → (∃ free, Linked s none free) → ∃ free, Linked s' none free

theorem Keeps.trans (h1 : Keeps s1 s2) (h2 : Keeps s2 s3) : Keeps s1 s3 where
  pages := h1.pages.trans h2.pages
  linked := fun hok h => h2.linked hok (h1.linked (hok.suffix h2.pages) h)

theorem SameMaps.keeps (h : SameMaps s s') : Keeps s s' where
  pages := h.pages ▸ List.suffix_refl _
  linked := fun _ ⟨free, hl⟩ => ⟨free, h.linked hl⟩

theorem PagingOnly.keeps (h : PagingOnly s s') : Keeps s s' :=
  h.sameMaps.keeps

theorem newMapping_keeps
    (h : newMapping s pm start pageCount flags = .ok s') : Keeps s s' where
  pages := newMapping_pages h
  linked := fun hok ⟨_, hl⟩ => newMapping_ok hl h hok

theorem ensureRegion_keeps {pc : Nat}
    (h : ensureRegion s pm addr pc flags = .ok s') : Keeps s s' := by
  unfold ensureRegion at h
  split at h
  next => exact (SameMaps.addRegion h).keeps
  next =>
    cases h
    exact (SameMaps.refl _).keeps

theorem undoAlloc_keeps (s : State) (pm addr mapped : Nat)
    : Keeps s (undoAlloc s pm addr mapped) := by
  have hfree := (PagingOnly.freeOwnedRegion s pm addr (addr + mapped * 4096)).keeps
  unfold undoAlloc
  simp only
  split
  next => exact hfree
  next r _ => exact hfree.trans (SameMaps.removeRegion _ pm r.node).keeps

theorem alloc_keeps {pc rand : Nat} {user : Bool} (h : alloc s pm pc user rand = .ok (addr, s'))
    : Keeps s s' := by
  simp only [alloc] at h
  split at h
  next =>
    cases h
    exact (SameMaps.refl s).keeps
  next =>
    obtain ⟨⟨addr', t1⟩, h1, h⟩ := bind_ok.mp h
    have hk1 := (SameMaps.internalAlloc h1).keeps
    simp only at h
    split at h
    next =>
      cases h
      exact hk1
    next =>
      obtain ⟨t2, h2, h⟩ := bind_ok.mp h
      obtain ⟨⟨mapped, t3⟩, h3, h⟩ := bind_ok.mp h
      have hk := (hk1.trans (ensureRegion_keeps h2)).trans (PagingOnly.allocPages h3).keeps
      simp only at h
      split at h
      next =>
        cases h
        exact hk.trans (undoAlloc_keeps t3 pm addr' mapped)
      next =>
        obtain ⟨t4, h4, h⟩ := bind_ok.mp h
        cases h
        exact hk.trans (newMapping_keeps h4)

theorem RecordsOnly.pages (h : RecordsOnly s s') : s'.mapPages = s.mapPages := by
  rw [h.rest]

theorem RecordsOnly.dropMapping (h : dropMapping s pm ptr = .ok s') : RecordsOnly s s' := by
  unfold VMM.dropMapping at h
  simp only at h
  split at h
  next =>
    cases h
    exact .refl _
  next => exact .removeMappingAt h

theorem RecordsOnly.cleanMappings (h : cleanMappings s pm = .ok s') : RecordsOnly s s' := by
  unfold VMM.cleanMappings at h
  simp only at h
  split at h
  next =>
    cases h
    exact .refl _
  next =>
    obtain ⟨n, -, h⟩ := bind_ok.mp h
    exact .removeMappings h

theorem removeMapping_keeps {m : Nat} (hm : m ∈ ring s pm) (hhead : (s.pagemap pm).vmMappings ≠ m)
    (h : removeMapping s m = .ok s') : Keeps s s' where
  pages := (RecordsOnly.removeMapping h).pages ▸ List.suffix_refl _
  linked := fun _ ⟨_, hl⟩ => ⟨_, removeMapping_ok hl hm (fun _ => hhead) h⟩

section

variable (hstart : (s.mapping (s.pagemap pm).vmMappings).start ≠ ptr)
include hstart

theorem dropMapping_keeps
    (h : dropMapping s pm ptr = .ok s') : Keeps s s' := by
  unfold dropMapping at h
  simp only at h
  split at h
  next =>
    cases h
    exact (SameMaps.refl s).keeps
  next hne =>
    constructor
    case pages => exact (RecordsOnly.removeMappingAt h).pages ▸ List.suffix_refl _
    case linked =>
      rintro - ⟨free, hl⟩
      have hhead := hl.heads pm (by simp)
      cases hring : ring s pm with
      | nil =>
        rw [hring] at hhead
        exact absurd hhead hne
      | cons =>
        have hr := hl.rings pm
        have hnodup := hl.ring_nodup pm
        rw [hring] at hhead hr hnodup
        rw [List.headD_cons] at hhead
        rw [hhead] at h hstart
        rcases removeMappingAt_head _ hr hstart h with heq | ⟨m, hm, hremove⟩
        . exact ⟨free, heq ▸ hl⟩
        . have hm' : m ∈ ring s pm := by simp [hring, hm]
          refine ⟨m :: free, removeMapping_ok hl hm' (fun _ heq => ?_) hremove⟩
          rw [hhead] at heq
          exact (List.nodup_cons.mp hnodup).1 (heq ▸ hm)

theorem free_keeps
    (h : VMM.free s pm ptr = .ok s') : Keeps s s' := by
  simp only [VMM.free] at h
  split at h
  next =>
    cases h
    exact (SameMaps.refl s).keeps
  next =>
    split at h
    next region head _ _ =>
      split at h
      next =>
        cases h
        exact (SameMaps.refl s).keeps
      next =>
        obtain ⟨t, ht, h⟩ := bind_ok.mp h
        cases h
        have hcursor : SameMaps s (s.setPagemap pm { s.pagemap pm with
            vmaCursor := prevNode head.node (s.pagemap pm).regions region.node }) :=
          SameMaps.setPagemap rfl
        have hsame := hcursor.trans (PagingOnly.freeRegion _ pm region).sameMaps
        refine (hsame.keeps.trans (dropMapping_keeps ?_ ht)).trans
          (SameMaps.removeRegion _ _ _).keeps
        rw [hsame.heads, hsame.mapping]
        exact hstart
    next =>
      cases h
      exact (SameMaps.refl s).keeps

end

theorem cleanRegions_sameMaps (s : State) (pm : Nat) : SameMaps s (cleanRegions s pm) := by
  have hregion : ∀ (t : State) (r : Region), SameMaps t (cleanRegions.cleanRegion pm t r) := by
    intro t r
    unfold cleanRegions.cleanRegion
    simp only
    split
    next => exact (PagingOnly.freeRegion t pm r).sameMaps.trans (SameMaps.removeRegion _ pm r.node)
    next => exact SameMaps.removeRegion t pm r.node
  have hall : ∀ (regions : List Region) (t : State),
      SameMaps t (regions.foldl (cleanRegions.cleanRegion pm) t) := by
    intro regions
    induction regions with
    | nil => exact SameMaps.refl
    | cons r _ ih => exact fun t => (hregion t r).trans (ih _)
  unfold cleanRegions
  simp only
  split
  next => exact SameMaps.refl s
  next head _ =>
    have hfree := (hall (s.pagemap pm).regions s).trans (PagingOnly.pmmFree _ head.node).sameMaps
    exact hfree.trans (SameMaps.setPagemap rfl)

theorem cleanMappings_ok (hl : Linked s none free) (hpages : PagesOk s.mapPages)
    (h : cleanMappings s pm = .ok s') : (∃ free', Linked s' (some pm) free') ∧ ring s' pm = [] := by
  have hweak : Linked s (some pm) free :=
    ⟨hl.chain, hl.nodup, hl.inside, hl.rings, fun a _ => hl.heads a (by simp)⟩
  have hhead := hl.heads pm (by simp)
  unfold cleanMappings at h
  simp only at h
  split at h
  next hzero =>
    cases h
    refine ⟨⟨free, hweak⟩, ?_⟩
    cases hring : ring s pm with
    | nil => rfl
    | cons a =>
      have ha : a ∈ ring s pm := by simp [hring]
      have hpos := hl.ring_pos hpages ha
      rw [hring, hzero] at hhead
      simp only [List.headD_cons] at hhead
      omega
  next hne =>
    obtain ⟨n, hn, h⟩ := bind_ok.mp h
    cases hring : ring s pm with
    | nil =>
      rw [hring] at hhead
      exact absurd hhead hne
    | cons a l =>
      have hr := hl.rings pm
      have hnodup := hl.ring_nodup pm
      rw [hring] at hhead hr hnodup
      rw [List.headD_cons] at hhead
      rw [hhead] at hn h
      have hcount := countMappings_ok _ hr (List.nodup_cons.mp hnodup).1 hn
      rw [hcount] at h
      obtain ⟨hfree, hempty, -⟩ := removeMappings_ok (a :: l) hweak hring h
      exact ⟨hfree, hempty⟩

theorem Linked.reset (h : Linked s (some pm) free) (hring : ring s pm = []) {map : Pagemap}
    (hmap : map.vmMappings = 0) : Linked (s.setPagemap pm map) none free where
  __ := h
  heads := by
    intro a _
    show (if a = pm then map else s.pagemap a).vmMappings = (ring s a).headD 0
    split
    next heq =>
      rw [hmap, heq, hring]
      rfl
    next hne => exact h.heads a (by simpa using hne)

theorem destroyPM_keeps (h : destroyPM s pm = .ok s') : Keeps s s' := by
  obtain ⟨t, ht, h⟩ := bind_ok.mp h
  obtain ⟨u, hu, ht⟩ := bind_ok.mp ht
  have hclean := cleanRegions_sameMaps s pm
  have hpages := (RecordsOnly.cleanMappings hu).pages
  have hk : Keeps s t := by
    cases ht
    constructor
    case pages =>
      show s.mapPages <:+ u.mapPages
      rw [hpages, hclean.pages]
    case linked =>
      rintro hok ⟨free, hl⟩
      have hok : PagesOk (cleanRegions s pm).mapPages := hpages ▸ hok
      obtain ⟨⟨free', hl'⟩, hring⟩ := cleanMappings_ok (hclean.linked hl) hok hu
      exact ⟨free', hl'.reset hring rfl⟩
  have hzero : (t.pagemap pm).vmMappings = 0 := by
    cases ht
    simp [State.setPagemap]
  have htables := (PagingOnly.freePageTables 4 (t.pagemap pm).entries t).trans
    ((PagingOnly.pmmFree _ (t.pagemap pm).toplvl).trans (PagingOnly.pmmFree _ pm))
  cases h
  refine (hk.trans htables.keeps).trans (SameMaps.setPagemap ?_).keeps
  rw [htables.sameMaps.heads pm, hzero]
  rfl

theorem forkRegions_keeps {parent child : Nat} {ok : Bool} (regions : List Region)
    (h : forkRegions s parent child regions = .ok (ok, s')) : Keeps s s' := by
  induction regions generalizing s with
  | nil =>
    simp only [forkRegions, Except.ok.injEq, Prod.mk.injEq] at h
    exact h.2 ▸ (SameMaps.refl s).keeps
  | cons r _ ih =>
    unfold forkRegions at h
    split at h
    next => exact ih h
    next =>
      obtain ⟨⟨ok1, t1⟩, h1, h⟩ := bind_ok.mp h
      have hk1 := (PagingOnly.forkPages h1).keeps
      cases ok1 with
      | false =>
        cases h
        exact hk1
      | true =>
        obtain ⟨t2, h2, h⟩ := bind_ok.mp h
        obtain ⟨t3, h3, h⟩ := bind_ok.mp h
        have hmark : SameMaps t1 (t1.setPagemap parent (markShared (t1.pagemap parent) r.node)) :=
          SameMaps.setPagemap rfl
        have hk2 := (hk1.trans hmark.keeps).trans (SameMaps.addRegion h2).keeps
        exact (hk2.trans (newMapping_keeps h3)).trans (ih h)

theorem SameMaps.newTop {t t' : State} {pm toplvl : Nat} (h : requestUnchecked s = .ok (pm, t))
    (h' : requestUnchecked t = .ok (toplvl, t')) (hzero : (s.pagemap pm).vmMappings = 0)
    : SameMaps s (t'.setPagemap pm (emptySpace t' toplvl)) := by
  have hrequests := ((PagingOnly.requestUnchecked h).trans
    (PagingOnly.requestUnchecked h')).sameMaps
  refine hrequests.trans (SameMaps.setPagemap ?_)
  rw [hrequests.heads pm, hzero]
  rfl

theorem fork_keeps {parent : Nat} {res : Option Nat}
    (hchild : ∀ (child : Nat) (t : State), requestUnchecked s = .ok (child, t) →
      (s.pagemap child).vmMappings = 0)
    (h : fork s parent = .ok (res, s')) : Keeps s s' := by
  obtain ⟨⟨child, t1⟩, h1, h⟩ := bind_ok.mp h
  obtain ⟨⟨toplvl, t2⟩, h2, h⟩ := bind_ok.mp h
  have hnew := SameMaps.newTop h1 h2 (hchild child t1 h1)
  simp only at h
  split at h
  next =>
    cases h
    exact hnew.keeps
  next head _ =>
    obtain ⟨t3, h3, h⟩ := bind_ok.mp h
    obtain ⟨⟨ok, t4⟩, h4, h⟩ := bind_ok.mp h
    have hk := (hnew.trans (SameMaps.setStart h3)).keeps.trans (forkRegions_keeps _ h4)
    cases ok with
    | true =>
      cases h
      exact hk
    | false =>
      obtain ⟨t5, h5, h⟩ := bind_ok.mp h
      cases h
      exact hk.trans (destroyPM_keeps h5)

end

inductive MapCall where
  | newMapping (pm start pageCount : Nat) (flags : BitVec 64)
  | removeMapping (m : Nat)
  | alloc (pm pc : Nat) (user : Bool) (rand : Nat)
  | free (pm ptr : Nat)
  | fork (parent : Nat)

def mapExec (s : State) (call : MapCall) : Except Fault State :=
  match call with
  | .newMapping pm start pageCount flags => newMapping s pm start pageCount flags
  | .removeMapping m => removeMapping s m
  | .alloc pm pc user rand => do
    let (_, s) ← alloc s pm pc user rand
    return s
  | .free pm ptr => VMM.free s pm ptr
  | .fork parent => do
    let (_, s) ← fork s parent
    return s

def mapStep (s : State) (call : MapCall) : Option State :=
  (mapExec s call).toOption

/--
What the page frame manager hands out is a whole page that is in use neither for mapping records nor
as the `pagemap_t` of a page map with records.
-/
def HandsOutUnused (s : State) (call : MapCall) : Prop :=
  (∀ s' ∈ mapStep s call, PagesOk s'.mapPages)
    ∧ match call with
      | .fork _ => ∀ x ∈ (requestUnchecked s).toOption, (s.pagemap x.1).vmMappings = 0
      | _ => True

/--
A record that is removed is one that was created and not removed since, and `vm_mappings` does not
point to it.
-/
def KeepsHead (s : State) (call : MapCall) : Prop :=
  match call with
  | .removeMapping m => ∃ x ∈ s.live, x.2 = m ∧ (s.pagemap x.1).vmMappings ≠ m
  | .free pm ptr => (s.mapping (s.pagemap pm).vmMappings).start ≠ ptr
  | _ => True

def NoMappings (s : State) : Prop :=
  s.mapFreeList = 0 ∧ s.mapPages = [] ∧ s.live = [] ∧ ∀ (pm : Nat), (s.pagemap pm).vmMappings = 0

section

variable {s s0 : State}

theorem NoMappings.linked (h : NoMappings s) : Linked s none [] where
  chain := h.1
  nodup := by simp [h.2.2.1]
  inside := by simp [h.2.2.1]
  rings := by
    intro pm
    simp [ring, h.2.2.1, IsRing]
  heads := by
    intro pm _
    simp [ring, h.2.2.1, h.2.2.2 pm]

theorem mapStep_keeps {call : MapCall} {s' : State} (hunused : HandsOutUnused s call)
    (hhead : KeepsHead s call) (h : mapStep s call = some s') : Keeps s s' := by
  have hexec : mapExec s call = .ok s' := by
    unfold mapStep at h
    cases hexec : mapExec s call with
    | error =>
      rw [hexec] at h
      cases h
    | ok =>
      rw [hexec] at h
      cases h
      rfl
  cases call with
  | newMapping => exact newMapping_keeps hexec
  | removeMapping =>
    obtain ⟨⟨pm, m'⟩, hlive, heq, hne⟩ := hhead
    simp only at heq hne
    subst heq
    exact removeMapping_keeps (mem_ring.mpr hlive) hne hexec
  | alloc =>
    obtain ⟨⟨addr, t⟩, ht, hexec⟩ := bind_ok.mp hexec
    cases hexec
    exact alloc_keeps ht
  | free => exact free_keeps hhead hexec
  | fork =>
    obtain ⟨⟨res, t⟩, ht, hexec⟩ := bind_ok.mp hexec
    cases hexec
    refine fork_keeps ?_ ht
    intro child t1 h1
    have := hunused.2 (child, t1)
    rw [h1] at this
    exact this rfl

/--
A well-formed ring of the records that were created for `pm` and not removed since, to one of which
`vm_mappings` points.
-/
def RingOk (s : State) (pm : Nat) : Prop :=
  ((s.pagemap pm).vmMappings = 0 ∧ ∀ m, (pm, m) ∉ s.live)
    ∨ ∃ l : List Nat, (s.pagemap pm).vmMappings ∈ l ∧ l.Nodup ∧ (∀ m, m ∈ l ↔ (pm, m) ∈ s.live)
        ∧ IsRing (nextOf s.mapping) (prevOf s.mapping) l

theorem Linked.ringOk {free : List Nat} (h : Linked s none free) (pm : Nat) : RingOk s pm := by
  have hhead := h.heads pm (by simp)
  cases hring : ring s pm with
  | nil =>
    refine .inl ⟨?_, ?_⟩
    . rw [hhead, hring]
      rfl
    . intro m hm
      rw [← mem_ring, hring] at hm
      cases hm
  | cons =>
    refine .inr ⟨ring s pm, ?_, h.ring_nodup pm, fun m => mem_ring, h.rings pm⟩
    rw [hhead, hring]
    simp

def OnFreeList (s : State) (m : Nat) : Prop :=
  ∃ l : List Nat, FreeChain s.mapping s.mapFreeList l ∧ m ∈ l

theorem mappings_in_ring (hinit : NoMappings s0)
    (h : Steps.Reach mapStep (fun s call => HandsOutUnused s call ∧ KeepsHead s call) s0 s)
    : (∀ pm, RingOk s pm) ∧ ∀ pm m, (pm, m) ∈ s.live → ¬OnFreeList s m := by
  obtain ⟨free, hl⟩ : ∃ free, Linked s none free := by
    apply Steps.Reach.invariant (fun s => ∃ free, Linked s none free) ⟨[], hinit.linked⟩ _ h
    rintro s call s' hl ⟨hunused, hhead⟩ hstep
    exact (mapStep_keeps hunused hhead hstep).linked (hunused.1 s' hstep) hl
  refine ⟨hl.ringOk, ?_⟩
  rintro pm m hm ⟨l, hchain, hmem⟩
  rw [hchain.unique hl.chain] at hmem
  exact hl.not_free (mem_ring.mpr hm) hmem

end

instance (pages : List Nat) : Decidable (PagesOk pages) :=
  inferInstanceAs (Decidable (_ ∧ _))

instance (s : State) (call : MapCall) : Decidable (HandsOutUnused s call) := by
  unfold HandsOutUnused
  cases call <;> infer_instance

instance (s : State) (call : MapCall) : Decidable (KeepsHead s call) := by
  unfold KeepsHead
  cases call <;> infer_instance

/--
The kernel page map at boot, with one page of the upper half mapped. Its tables are in memory that
is not handed out.
-/
def kernelSpace : Pagemap :=
  { Pagemap.empty with
    toplvl := 0x5000
    entries := fun i => if i = 256 then table 0x6000 (table 0x7000 (table 0x8000
      (.leaf 0x9000 mmRead))) else .none
  }
where
  table (frame : Nat) (first : Entry) : Entry :=
    .table frame fun i => if i = 0 then first else .none

def bootState : State where
  pmm := PMM.smallState
  cpu := none
  hhdmOffset := 0xffff800000000000
  pagemap := fun a => if a = 0x4000 then kernelSpace else Pagemap.empty
  kernelPagemap := 0x4000
  rcTree := fun _ => none
  nodeFreeList := []
  nodePages := []
  mapping := fun _ => ⟨0, 0, 0#64, 0, 0⟩
  mapFreeList := 0
  mapPages := []
  live := []
  heap := []
  freed := []

theorem NoMappings.newPM {s s' : State} {pm : Nat} (h : NoMappings s)
    (hrun : newPM s = .ok (pm, s'))
    : NoMappings s' := by
  obtain ⟨⟨pm', t1⟩, h1, hrun⟩ := bind_ok.mp hrun
  obtain ⟨⟨toplvl, t2⟩, h2, hrun⟩ := bind_ok.mp hrun
  obtain ⟨t3, h3, hrun⟩ := bind_ok.mp hrun
  cases hrun
  have hsame := (SameMaps.newTop h1 h2 (h.2.2.2 pm)).trans (SameMaps.setStart h3)
  refine ⟨hsame.freeList.trans h.1, hsame.pages.trans h.2.1, hsame.live.trans h.2.2.1, ?_⟩
  intro a
  rw [hsame.heads a, h.2.2.2 a]

def newSpace : State :=
  match newPM bootState with
  | .ok (_, s) => s
  | .error _ => bootState

theorem newSpace_noMappings : NoMappings newSpace := by
  have hboot : NoMappings bootState := by
    refine ⟨rfl, rfl, rfl, fun a => ?_⟩
    simp only [bootState]
    split <;> rfl
  unfold newSpace
  split
  next pm s h => exact hboot.newPM h
  next => exact hboot

def freeSecond : List MapCall := [
  .alloc 4096 1 false 0,
  .alloc 4096 1 false 0,
  .free 4096 0xffff900000001000]

theorem mappings_in_ring_freeSecond : ∃ s,
    (∀ pm, RingOk s pm) ∧ (s.pagemap 4096).vmMappings = 98304 ∧ s.live = [(4096, 98304)] := by
  obtain ⟨s, hreach, hs⟩ := Steps.Reach.exists_of_run mapStep
    (fun s call => HandsOutUnused s call ∧ KeepsHead s call) newSpace freeSecond
    (fun s => (s.pagemap 4096).vmMappings = 98304 ∧ s.live = [(4096, 98304)]) (by decide +kernel)
  exact ⟨s, (mappings_in_ring newSpace_noMappings hreach).1, hs⟩

def freeFirst : List MapCall := [
  .alloc 4096 1 false 0,
  .alloc 4096 1 false 0,
  .free 4096 0xffff900000000000]

theorem freed_head_reachable
    : NoMappings newSpace ∧ ∃ s, Steps.Reach mapStep HandsOutUnused newSpace s
      ∧ ¬RingOk s 4096 := by
  obtain ⟨s, hreach, hhead, hlive⟩ :=
    Steps.Reach.exists_of_run mapStep HandsOutUnused newSpace freeFirst
    (fun s => (s.pagemap 4096).vmMappings = 98304 ∧ (4096, 98304) ∉ s.live) (by decide +kernel)
  refine ⟨newSpace_noMappings, s, hreach, ?_⟩
  rintro (⟨hzero, -⟩ | ⟨l, hmem, -, hl, -⟩)
  . rw [hhead] at hzero
    cases hzero
  . rw [hl, hhead] at hmem
    exact hlive hmem

end VMM
